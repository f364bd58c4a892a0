import ApiDescriptors.Proofs.Document

namespace ApiDescriptors

open Result

namespace Members

variable {members after : Members} {name other : String} {value : Json}

theorem lookup_insert :
    (members.insert name value).lookup other =
      if other = name then some value else members.lookup other := by
  induction members
  case nil => rw [insert, List.lookup_cons]; grind
  case cons member members hi =>
    rw [insert]
    split
    case isTrue  => rw [List.lookup_cons, List.lookup_cons]; grind
    case isFalse => rw [List.lookup_cons, List.lookup_cons, hi]; grind

theorem lookup_override_of_not_mem (h : name ∉ after.names) :
    (members.override after).lookup name = members.lookup name := by
  induction after generalizing members
  case nil => rfl
  case cons m after hi =>
    have ⟨hne, hn⟩ := List.ne_and_not_mem_of_not_mem_cons h
    show ((members.insert m.1 m.2).override after).lookup name = _
    rw [hi hn, lookup_insert, if_neg hne]

end Members

-- The values inside a YAML value, each at its node. Keys are not among them.
inductive Yaml.Value.Holds (root : Yaml.Value) : Pointer → Yaml.Value → Prop
  | root : Holds root .root root
  | item {node items i v} : Holds root node (.seq items) → items[i]? = some v →
    Holds root (node.child (Number.decimal i)) v
  | entry {node entries key v name} : Holds root node (.map entries) → (key, v) ∈ entries →
    Document.key? key = some name → Holds root (node.child name) v
  | content {node tag v} : Holds root node (.tagged tag v) → Holds root node v

namespace Document

variable {d : Document} {root : Yaml.Value} {node : Pointer}
  {entries : List (Yaml.Value × Yaml.Value)} {entry : Yaml.Value × Yaml.Value}

-- What an entry of a mapping at a node becomes.
structure Becomes (node : Pointer) (entry : Yaml.Value × Yaml.Value) (m : String × Json) :
    Prop where
  name  : key? entry.1 = some m.1
  value : tree (node.child m.1) entry.2 = .ok m.2

-- An entry that asks for a merge and declares no member.
def isMerge (entry : Yaml.Value × Yaml.Value) : Bool :=
  key? entry.1 = some mergeKey

theorem exists_tree_of_treeItems {index : Nat} {items : List Yaml.Value} {vs : List Json}
    (h : treeItems node index items = .ok vs) {i : Nat} {v : Yaml.Value} (hi : items[i]? = some v) :
    ∃ w, tree (node.child (Number.decimal (index + i))) v = .ok w := by
  induction items generalizing index vs i
  case nil => simp at hi
  case cons item items ih =>
    have ⟨first, hf, h⟩ := bind_eq_ok.mp h
    have ⟨_, ho, _⟩ := bind_eq_ok.mp h
    cases i
    case zero   => cases hi; exact ⟨first, hf⟩
    case succ i =>
      have ⟨w, hw⟩ := ih ho hi
      exact ⟨w, by rwa [Nat.add_comm i, ← Nat.add_assoc]⟩

-- Every entry becomes a member, of the mapping itself or of one that is merged into it. Those that
-- ask for no merge are the explicit members, in their order.
theorem becomes_of_treeEntries {merged merged' explicit explicit' : Members}
    (h : treeEntries node merged explicit entries = .ok (merged', explicit')) :
    (∀ entry ∈ entries, ∃ m, Becomes node entry m) ∧
    ∃ members, explicit' = explicit ++ members ∧
      List.Forall₂ (Becomes node) (entries.filter (!isMerge ·)) members := by
  induction entries generalizing merged explicit
  case nil => cases h; exact ⟨nofun, [], by simp, .nil⟩
  case cons entry entries hi =>
    obtain ⟨key, value⟩ := entry
    rw [treeEntries] at h
    split at h
    case h_1 => cases h
    case h_2 name hn =>
      obtain ⟨v, hv, h⟩ := bind_eq_ok.mp h
      have hb : Becomes node (key, value) (name, v) := ⟨hn, hv⟩
      split at h
      case isTrue hm =>
        obtain ⟨_, _, h⟩ := bind_eq_ok.mp h
        obtain ⟨ha, members, he, hf⟩ := hi h
        have hmerge : isMerge (key, value) = true := decide_eq_true (hm ▸ hn)
        exact ⟨List.forall_mem_cons.mpr ⟨⟨_, hb⟩, ha⟩, members, he, by simpa [hmerge] using hf⟩
      case isFalse hm =>
        obtain ⟨ha, members, he, hf⟩ := hi h
        have hmerge : isMerge (key, value) = false :=
          decide_eq_false fun hc => hm (Option.some.inj (hn.symm.trans hc))
        refine ⟨List.forall_mem_cons.mpr ⟨⟨_, hb⟩, ha⟩, (name, v) :: members, by simp [he], ?_⟩
        rw [List.filter_cons_of_pos (by simp [hmerge])]
        exact .cons hb hf

-- What a YAML value holds was converted with it.
theorem exists_tree_of_holds {v : Yaml.Value} (h : ofValue root = .ok d) (hv : root.Holds node v) :
    ∃ w, tree node v = .ok w := by
  induction hv
  case root =>
    have ⟨w, hw, _⟩ := bind_eq_ok.mp h
    exact ⟨w, hw⟩
  case item hi ih =>
    have ⟨_, ih⟩ := ih
    have ⟨_, ht, _⟩ := map_eq_ok.mp ih
    simpa using exists_tree_of_treeItems ht hi
  case entry hm hk ih =>
    have ⟨_, ih⟩ := ih
    have ⟨⟨_, _⟩, he, _⟩ := bind_eq_ok.mp ih
    have ⟨m, hn, hv⟩ := (becomes_of_treeEntries he).left _ hm
    exact ⟨m.2, Option.some.inj (hk.symm.trans hn) ▸ hv⟩
  case content ih => exact ih

-- The members of a mapping say what one of its entries says.
def Keeps (node : Pointer) (members : Members) (entry : Yaml.Value × Yaml.Value) : Prop :=
  ∃ m, Becomes node entry m ∧ members.lookup m.1 = some m.2

theorem Becomes.unique {m m' : String × Json} (h : Becomes node entry m)
    (h' : Becomes node entry m') : m = m' := by
  have hn : m.1 = m'.1 := Option.some.inj (h.name.symm.trans h'.name)
  exact Prod.ext hn (Except.ok.inj (h.value.symm.trans (hn ▸ h'.value)))

-- Of the entries with one name the last is kept.
theorem keeps_override {members explicit : Members} {before after : List (Yaml.Value × Yaml.Value)}
    (h : List.Forall₂ (Becomes node) (before ++ entry :: after) explicit)
    (hl : ∀ other ∈ after, key? other.1 ≠ key? entry.1) :
    Keeps node (members.override explicit) entry := by
  induction before generalizing members explicit
  case nil =>
    cases h
    case cons m explicit hm hf =>
      have hn : m.1 ∉ Members.names explicit := by
        intro hc
        have ⟨m', hm', he⟩ := List.mem_map.mp hc
        have ⟨other, ho, hb⟩ := exists_of_forall₂_of_mem hf hm'
        exact hl other ho (hb.name.trans (he ▸ hm.name.symm))
      refine ⟨m, hm, ?_⟩
      show ((members.insert m.1 m.2).override explicit).lookup m.1 = _
      rw [Members.lookup_override_of_not_mem hn, Members.lookup_insert, if_pos rfl]
  case cons first before hi =>
    cases h
    case cons m explicit _ hf =>
      show Keeps node ((members.insert m.1 m.2).override explicit) entry
      exact hi hf

theorem tree_map_eq_ok {v : Json} (h : tree node (.map entries) = .ok v) :
    ∃ merged explicit : Members, v = .obj (merged.override explicit) ∧
      (∀ entry ∈ entries, ∃ m, Becomes node entry m) ∧
      List.Forall₂ (Becomes node) (entries.filter (!isMerge ·)) explicit := by
  have ⟨⟨merged, _⟩, he, h⟩ := bind_eq_ok.mp h
  have ⟨ha, explicit, hx, hf⟩ := becomes_of_treeEntries he
  cases pure_eq_ok.mp h
  exact ⟨merged, explicit, by simp [hx], ha, hf⟩

theorem keeps_of_tree {members : Members} {before after : List (Yaml.Value × Yaml.Value)}
    (h : tree node (.map (before ++ entry :: after)) = .ok (.obj members))
    (hx : isMerge entry = false) (hl : ∀ other ∈ after, key? other.1 ≠ key? entry.1) :
    Keeps node members entry := by
  have ⟨merged, explicit, he, _, hf⟩ := tree_map_eq_ok h
  cases he
  rw [List.filter_append, List.filter_cons_of_pos (by simp [hx])] at hf
  exact keeps_override hf fun other ho => hl other (List.mem_of_mem_filter ho)

theorem exists_last {α : Type} {p : α → Prop} {l : List α} (h : ∃ a ∈ l, p a) :
    ∃ before a after, l = before ++ a :: after ∧ p a ∧ ∀ b ∈ after, ¬p b := by
  induction l
  case nil => simp at h
  case cons c l hi =>
    by_cases ht : ∃ a ∈ l, p a
    case pos =>
      have ⟨before, a, after, he, ha, hn⟩ := hi ht
      exact ⟨c :: before, a, after, by rw [he, List.cons_append], ha, hn⟩
    case neg =>
      have hn : ∀ b ∈ l, ¬p b := fun b hb hp => ht ⟨b, hb, hp⟩
      exact ⟨[], c, l, rfl, ((List.exists_mem_cons_iff ..).mp h).resolve_right ht, hn⟩

-- Every mapping of a document keeps the last of its entries that have one name, so it keeps them
-- all exactly when entries with one name say the same.
theorem keeps_of_ofValue (h : ofValue root = .ok d) (hm : root.Holds node (.map entries)) :
    ∃ members, tree node (.map entries) = .ok (.obj members) ∧
      (∀ before entry after, entries = before ++ entry :: after → isMerge entry = false →
        (∀ other ∈ after, key? other.1 ≠ key? entry.1) → Keeps node members entry) ∧
      ((∀ entry ∈ entries, isMerge entry = false → Keeps node members entry) ↔
        ∀ entry ∈ entries, ∀ other ∈ entries, isMerge entry = false →
          ∀ m m', Becomes node entry m → Becomes node other m' → m.1 = m'.1 → m = m') := by
  have ⟨_, ht⟩ := exists_tree_of_holds h hm
  have ⟨merged, explicit, he, ha, _⟩ := tree_map_eq_ok ht
  subst he
  have hlast (before entry after) (he : entries = before ++ entry :: after) :=
    keeps_of_tree (he ▸ ht)
  refine ⟨_, ht, hlast, ?_, ?_⟩
  case refine_1 =>
    intro hk entry hm other hm' hx m m' hb hb' hn
    have hx' : isMerge other = false := by
      rw [← hx, isMerge, isMerge, hb.name, hb'.name, hn]
    have ⟨_, hc, hv⟩ := hk entry hm hx
    have ⟨_, hc', hv'⟩ := hk other hm' hx'
    cases hb.unique hc
    cases hb'.unique hc'
    exact Prod.ext hn (Option.some.inj (hv.symm.trans (hn ▸ hv')))
  case refine_2 =>
    intro hs entry hm hx
    have ⟨m, hb⟩ := ha entry hm
    have ⟨before, last, after, he, hn, hl⟩ :=
      exists_last (p := fun other => key? other.1 = key? entry.1) ⟨entry, hm, rfl⟩
    have hx' : isMerge last = false := by rw [← hx, isMerge, isMerge, hn]
    have ⟨m', hb', hv⟩ := hlast before last after he hx' fun other ho => hn ▸ hl other ho
    have hm' : last ∈ entries := he ▸ List.mem_append_right _ List.mem_cons_self
    have hnames : m.1 = m'.1 := Option.some.inj (hb.name.symm.trans (hn ▸ hb'.name))
    cases hs entry hm last hm' hx m m' hb hb' hnames
    exact ⟨m, hb, hv⟩

-- Two keys that differ as numbers and strings do, and have one name.
def statuses : List (Yaml.Value × Yaml.Value) := [
  (.scalar (.str "<<"), .map [
    (.scalar (.int 404), .scalar (.str "merged")),
    (.scalar (.str "default"), .scalar (.str "other"))]),
  (.scalar (.int 404), .scalar (.str "first")),
  (.scalar (.str "404"), .scalar (.str "second"))
]

def repeatedStatus : Yaml.Value := .map [
  (.scalar (.str "swagger"), .scalar (.str "2.0")),
  (.scalar (.str "responses"), .map statuses)
]

theorem holds_repeatedStatus : repeatedStatus.Holds ⟨["responses"]⟩ (.map statuses) :=
  .entry .root (List.mem_cons_of_mem _ List.mem_cons_self) rfl

theorem ofValue_repeatedStatus : ofValue repeatedStatus = .ok {
    dialect := .swagger2
    root := .obj [
      ("swagger", .str "2.0"),
      ("responses", .obj [("404", .str "second"), ("default", .str "other")])]
  } :=
  ofValue_of_tree rfl (by decide +kernel)

theorem exists_keeps_statuses : ∃ d members, ofValue repeatedStatus = .ok d ∧
    tree ⟨["responses"]⟩ (.map statuses) = .ok (.obj members) ∧
    Keeps ⟨["responses"]⟩ members (.scalar (.str "404"), .scalar (.str "second")) := by
  have ⟨members, ht, hlast, _⟩ := keeps_of_ofValue ofValue_repeatedStatus holds_repeatedStatus
  have hk := hlast (statuses.take 2) _ [] rfl (by decide +kernel) nofun
  exact ⟨_, members, ofValue_repeatedStatus, ht, hk⟩

theorem not_keeps_statuses : ¬∀ root d node entries members, ofValue root = .ok d →
    root.Holds node (.map entries) → entries.Pairwise (fun x y => x.1.same y.1 = false) →
    tree node (.map entries) = .ok (.obj members) →
    ∀ entry ∈ entries, isMerge entry = false → Keeps node members entry := by
  intro h
  have hd : statuses.Pairwise (fun x y => x.1.same y.1 = false) := by decide +kernel
  have ht : tree ⟨["responses"]⟩ (.map statuses) =
      .ok (.obj [("404", .str "second"), ("default", .str "other")]) := rfl
  have hx : isMerge (.scalar (.int 404), .scalar (.str "first")) = false := by decide +kernel
  obtain ⟨m, hb, hv⟩ := h _ _ _ _ _ ofValue_repeatedStatus holds_repeatedStatus hd ht
    (.scalar (.int 404), .scalar (.str "first")) (by simp [statuses]) hx
  have hfirst : Becomes ⟨["responses"]⟩ (.scalar (.int 404), .scalar (.str "first"))
      ("404", .str "first") := ⟨by decide +kernel, rfl⟩
  cases hb.unique hfirst
  simp at hv

end Document
end ApiDescriptors
