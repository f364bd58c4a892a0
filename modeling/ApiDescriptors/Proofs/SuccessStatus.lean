import ApiDescriptors.Proofs.Numerals
import ApiDescriptors.SuccessStatus
import Mathlib.Data.List.Find
import Mathlib.Data.List.Induction
import Mathlib.Data.List.Perm.Basic

namespace ApiDescriptors.SuccessStatus

variable {α : Type} {status : α → String} {entries entries' : List α} {entry : α}
  {s t : String} {statuses statuses' : List String} {code rank : Nat}

-- What a status stands for

-- A status spells a code by its decimal digits, behind zeros and a plus sign or not.
def Spells (status : String) (code : Nat) : Prop :=
  ∃ sign zeros, (sign = [] ∨ sign = ['+']) ∧
    status.toList = sign ++ (List.replicate zeros '0' ++ Nat.toDigits 10 code)

structure SpellsSuccess (status : String) (code : Nat) : Prop where
  spells : Spells status code
  ge     : 200 ≤ code
  lt     : code < 300

-- The spellings of the range of all codes of success.
def ranges : List String :=
  ["2XX", "2Xx", "2xX", "2xx"]

theorem toNat_toLower (c : Char) :
    c.toLower.toNat = if 65 ≤ c.toNat ∧ c.toNat ≤ 90 then c.toNat + 32 else c.toNat := by
  delta Char.toLower
  by_cases h : 65 ≤ c.toNat ∧ c.toNat ≤ 90
  case pos =>
    rw [dif_pos ⟨UInt32.le_iff_toNat_le.mpr h.left, UInt32.le_iff_toNat_le.mpr h.right⟩, if_pos h]
    have hle : c.toNat + 32 ≤ 90 + 32 := Nat.add_le_add_right h.right 32
    exact (UInt32.toNat_add c.val 32).trans
      (Nat.mod_eq_of_lt (Nat.lt_of_le_of_lt hle (by decide)))
  case neg =>
    rw [if_neg h, dif_neg]
    simpa only [ge_iff_le, UInt32.le_iff_toNat_le]

theorem toLower_eq_two_iff {c : Char} : c.toLower = '2' ↔ c = '2' := by
  simp only [← Char.toNat_inj, toNat_toLower, Char.reduceToNat]
  split <;> omega

theorem toLower_eq_x_iff {c : Char} : c.toLower = 'x' ↔ c = 'X' ∨ c = 'x' := by
  simp only [← Char.toNat_inj, toNat_toLower, Char.reduceToNat]
  split <;> omega

theorem isRange_iff : isRange s ↔ s ∈ ranges := by
  constructor
  case mp =>
    intro h
    simp only [isRange, decide_eq_true_eq, List.map_eq_cons_iff, List.map_eq_nil_iff,
      toLower_eq_two_iff, toLower_eq_x_iff] at h
    obtain ⟨c, _, hs, rfl, d, _, rfl, hd, e, _, rfl, he, rfl⟩ := h
    obtain rfl := String.toList_inj.mp (hs.trans String.toList_ofList.symm)
    obtain rfl | rfl := hd <;> obtain rfl | rfl := he <;> decide
  case mpr =>
    intro h
    revert s
    decide

theorem spells_iff :
    Spells s code ↔ ∃ digits, Number.ofDigits? 10 digits = some code ∧
      (s.toList = digits ∨ s.toList = '+' :: digits) := by
  simp only [Number.ofDigits?_eq_some_iff, Spells]
  constructor
  case mp =>
    rintro ⟨sign, zeros, rfl | rfl, hs⟩
    case inl => exact ⟨_, ⟨zeros, rfl⟩, .inl hs⟩
    case inr => exact ⟨_, ⟨zeros, rfl⟩, .inr hs⟩
  case mpr =>
    rintro ⟨_, ⟨zeros, rfl⟩, hs | hs⟩
    case inl => exact ⟨[], zeros, .inl rfl, hs⟩
    case inr => exact ⟨['+'], zeros, .inr rfl, hs⟩

theorem code?_eq_some_iff : code? s = some code ↔ Spells s code ∧ code < Nat.pow 2 16 := by
  rw [code?, Option.filter_eq_some_iff, decide_eq_true_iff, spells_iff]
  refine and_congr_left' ?_
  split
  case h_1 cs hs =>
    have hn : Number.ofDigits? 10 ('+' :: cs) = none := rfl
    rw [hs]
    constructor
    case mp => exact fun h => ⟨cs, h, .inr rfl⟩
    case mpr =>
      rintro ⟨digits, h, rfl | he⟩
      case inl => cases hn.symm.trans h
      case inr => cases he; exact h
  case h_2 hs =>
    constructor
    case mp => exact fun h => ⟨_, h, .inl rfl⟩
    case mpr =>
      rintro ⟨digits, h, he | he⟩
      case inl => exact he ▸ h
      case inr => exact absurd he (hs digits)

theorem rank?_eq_some_iff :
    rank? s = some rank ↔ SpellsSuccess s rank ∨ s ∈ ranges ∧ rank = 300 := by
  have hc : SpellsSuccess s rank ↔
      (code? s).filter (fun code => 200 ≤ code ∧ code < 300) = some rank := by
    rw [Option.filter_eq_some_iff, code?_eq_some_iff, decide_eq_true_iff]
    constructor
    case mp  => exact fun h => ⟨⟨h.spells, Nat.lt_trans h.lt (by decide)⟩, h.ge, h.lt⟩
    case mpr => exact fun ⟨h, hge, hlt⟩ => ⟨h.left, hge, hlt⟩
  rw [hc, rank?]
  split
  case isTrue hr =>
    have hm := isRange_iff.mp hr
    have hn : ∀ t ∈ ranges, code? t = none := by decide
    simp [hn s hm, hm, eq_comm]
  case isFalse hr => simp [mt isRange_iff.mpr hr]

-- Whether a status tells of success at all.
def Succeeds (status : String) : Prop :=
  (∃ code, SpellsSuccess status code) ∨ status ∈ ranges

theorem rank?_eq_none_iff : rank? s = none ↔ ¬Succeeds s := by
  rw [Option.eq_none_iff_forall_not_mem]
  simp only [Option.mem_def, rank?_eq_some_iff, Succeeds]
  grind

-- What is chosen among statuses

-- The statuses that may be chosen when `statuses` are declared: `200`, or else what spells the
-- lowest code of success, or else what spells the range.
inductive Leads (statuses : List String) : String → Prop
  | ok : "200" ∈ statuses → Leads statuses "200"
  | code {s : String} {code : Nat} :
    "200" ∉ statuses → (∀ t ∈ statuses, ∀ other, SpellsSuccess t other → code ≤ other) →
    s ∈ statuses → SpellsSuccess s code → Leads statuses s
  | range {s : String} :
    (∀ t ∈ statuses, ∀ code, ¬SpellsSuccess t code) → s ∈ statuses → s ∈ ranges →
    Leads statuses s

theorem spellsSuccess_ok : SpellsSuccess "200" 200 :=
  ⟨⟨[], 0, .inl rfl, by decide⟩, by decide, by decide⟩

theorem leads_iff_of_mem (h : "200" ∈ statuses) : Leads statuses s ↔ s = "200" := by
  constructor
  case mp =>
    intro hs
    cases hs
    case ok            => rfl
    case code hn _ _ _ => exact absurd h hn
    case range hn _ _  => exact absurd spellsSuccess_ok (hn _ h _)
  case mpr => rintro rfl; exact .ok h

theorem leads_iff_of_not_mem (h : "200" ∉ statuses) :
    Leads statuses s ↔ s ∈ statuses ∧ ∃ rank ∈ rank? s,
      ∀ t ∈ statuses, ∀ other ∈ rank? t, rank ≤ other := by
  simp only [Option.mem_def, rank?_eq_some_iff]
  constructor
  case mp =>
    intro hs
    cases hs
    case ok hm => exact absurd hm h
    case code code _ hl hm hs =>
      refine ⟨hm, code, .inl hs, fun t ht other ho => ?_⟩
      obtain ho | ⟨_, rfl⟩ := ho
      case inl => exact hl t ht other ho
      case inr => exact Nat.le_of_lt hs.lt
    case range hn hm hr =>
      refine ⟨hm, 300, .inr ⟨hr, rfl⟩, fun t ht other ho => ?_⟩
      obtain ho | ⟨_, rfl⟩ := ho
      case inl => exact absurd ho (hn t ht other)
      case inr => exact Nat.le_refl _
  case mpr =>
    rintro ⟨hm, rank, hs | ⟨hr, rfl⟩, hl⟩
    case inl => exact .code h (fun t ht other ho => hl t ht other (.inl ho)) hm hs
    case inr =>
      refine .range (fun t ht code hc => ?_) hm hr
      exact absurd (hl t ht code (.inl hc)) (Nat.not_le.mpr hc.lt)

theorem leads_iff :
    Leads statuses s ↔ if "200" ∈ statuses then s = "200" else
      s ∈ statuses ∧ ∃ rank ∈ rank? s, ∀ t ∈ statuses, ∀ other ∈ rank? t, rank ≤ other := by
  split
  case isTrue h  => exact leads_iff_of_mem h
  case isFalse h => exact leads_iff_of_not_mem h

instance : Decidable (Leads statuses s) :=
  decidable_of_iff' _ leads_iff

-- Only what is declared matters, not the order.
theorem leads_congr (h : ∀ s, s ∈ statuses ↔ s ∈ statuses') :
    Leads statuses s ↔ Leads statuses' s := by
  simp only [leads_iff, h]

-- Statuses that lead mean one thing, however they spell it.
def Alike (s t : String) : Prop :=
  s = t ∨ (∃ code, SpellsSuccess s code ∧ SpellsSuccess t code) ∨ s ∈ ranges ∧ t ∈ ranges

theorem alike_of_leads (hs : Leads statuses s) (ht : Leads statuses t) : Alike s t := by
  by_cases h : "200" ∈ statuses
  case pos => exact .inl ((leads_iff_of_mem h).mp hs |>.trans ((leads_iff_of_mem h).mp ht).symm)
  case neg =>
    obtain ⟨hm, rank, hr, hl⟩ := (leads_iff_of_not_mem h).mp hs
    obtain ⟨hm', rank', hr', hl'⟩ := (leads_iff_of_not_mem h).mp ht
    obtain rfl := Nat.le_antisymm (hl t hm' rank' hr') (hl' s hm rank hr)
    obtain hs | ⟨hs, rfl⟩ := rank?_eq_some_iff.mp hr <;>
      obtain ht | ⟨ht, he⟩ := rank?_eq_some_iff.mp hr'
    case inl.inl => exact .inr (.inl ⟨_, hs, ht⟩)
    case inl.inr => exact absurd he (Nat.ne_of_lt hs.lt)
    case inr.inl => exact absurd ht.lt (Nat.lt_irrefl _)
    case inr.inr => exact .inr (.inr ⟨hs, ht⟩)

-- Entries with ranks

theorem mem_ranked_iff :
    (rank, entry) ∈ ranked status entries ↔
      entry ∈ entries ∧ rank? (status entry) = some rank := by
  simp [ranked, List.mem_filterMap]

-- The entry of the lowest rank, and of equals the first.
def Least (entries : List (Nat × α)) (entry : Nat × α) : Prop :=
  ∃ before after, entries = before ++ entry :: after ∧
    (∀ other ∈ before, entry.1 < other.1) ∧ ∀ other ∈ after, entry.1 ≤ other.1

variable {pairs : List (Nat × α)} {pair : Nat × α}

theorem Least.le (h : Least pairs pair) : ∀ other ∈ pairs, pair.1 ≤ other.1 := by
  obtain ⟨before, after, rfl, hb, ha⟩ := h
  intro other ho
  obtain ho | ho := List.mem_append.mp ho
  case inl => exact Nat.le_of_lt (hb other ho)
  case inr =>
    obtain rfl | ho := List.mem_cons.mp ho
    case inl => exact Nat.le_refl _
    case inr => exact ha other ho

theorem better_ne_none (best : Option (Nat × α)) (pair : Nat × α) : better best pair ≠ none := by
  fun_cases better best pair <;> nofun

theorem foldl_better_eq_none_iff : pairs.foldl better none = none ↔ pairs = [] := by
  constructor
  case mp =>
    intro h
    cases pairs using List.reverseRecOn
    case nil => rfl
    case append_singleton pairs pair _ =>
      rw [List.foldl_append] at h
      exact absurd h (better_ne_none _ pair)
  case mpr => rintro rfl; rfl

-- The best so far is the least so far.
theorem least_of_foldl_better (h : pairs.foldl better none = some pair) : Least pairs pair := by
  induction pairs using List.reverseRecOn generalizing pair
  case nil => cases h
  case append_singleton pairs next hi =>
    rw [List.foldl_append, List.foldl_cons, List.foldl_nil] at h
    cases hb : pairs.foldl better none
    case none =>
      obtain rfl := foldl_better_eq_none_iff.mp hb
      cases h
      exact ⟨[], [], rfl, nofun, nofun⟩
    case some best =>
      rw [hb, better] at h
      split at h <;> cases h
      case isTrue hlt =>
        exact ⟨pairs, [], rfl, fun other ho => Nat.lt_of_lt_of_le hlt ((hi hb).le other ho), nofun⟩
      case isFalse hlt =>
        obtain ⟨before, after, rfl, hbefore, hafter⟩ := hi hb
        refine ⟨before, after ++ [next], by simp, hbefore, fun other ho => ?_⟩
        obtain ho | ho := List.mem_append.mp ho
        case inl => exact hafter other ho
        case inr => exact List.mem_singleton.mp ho ▸ Nat.not_lt.mp hlt

theorem foldl_better_eq_find? :
    pairs.foldl better none = pairs.find? fun pair => ∀ other ∈ pairs, pair.1 ≤ other.1 := by
  cases hb : pairs.foldl better none
  case none => rw [foldl_better_eq_none_iff.mp hb, List.find?_nil]
  case some pair =>
    have hl := least_of_foldl_better hb
    obtain ⟨before, after, he, hbefore, _⟩ := id hl
    refine (List.find?_eq_some_iff_append.mpr ⟨by simpa using hl.le, before, after, he, ?_⟩).symm
    intro other ho
    have hm : pair ∈ pairs := he ▸ List.mem_append_right before List.mem_cons_self
    have hn : ¬∀ third ∈ pairs, other.1 ≤ third.1 :=
      fun hall => Nat.not_lt.mpr (hall pair hm) (hbefore other ho)
    rw [decide_eq_false hn, Bool.not_false]

-- Selecting

theorem select?_eq_find? (status : α → String) (entries : List α) :
    select? status entries =
      entries.find? fun entry => Leads (entries.map status) (status entry) := by
  by_cases h : "200" ∈ entries.map status
  case pos =>
    obtain ⟨entry, hm, he⟩ := List.mem_map.mp h
    simp only [leads_iff_of_mem h, select?]
    cases hf : entries.find? (status · = "200")
    case none => simpa [he] using List.find?_eq_none.mp hf entry hm
    case some => rfl
  case neg =>
    have hn : entries.find? (status · = "200") = none := by simpa using h
    have hc : entries.find? (fun entry => ((rank? (status entry)).map (·, entry)).any fun pair =>
        ∀ other ∈ ranked status entries, pair.1 ≤ other.1) =
        entries.find? fun entry => Leads (entries.map status) (status entry) := by
      refine List.find?_congr fun entry hm => Bool.eq_iff_iff.mpr ?_
      simp only [decide_eq_true_iff, leads_iff_of_not_mem h, Option.any_map, Option.any_eq_true,
        Prod.forall, mem_ranked_iff, List.forall_mem_map, List.mem_map_of_mem hm, true_and]
      refine exists_congr fun rank => and_congr_right fun _ => ?_
      constructor
      case mp  => exact fun hl other ho rank hr => hl rank other ⟨ho, hr⟩
      case mpr => exact fun hl rank other ho => hl other ho.left rank ho.right
    rw [select?, hn, Option.none_or, foldl_better_eq_find?, ranked, List.find?_filterMap,
      ← ranked, hc]
    cases hf : entries.find? fun entry => Leads (entries.map status) (status entry)
    case none => rfl
    case some entry =>
      have hl : Leads (entries.map status) (status entry) := by simpa using List.find?_some hf
      obtain ⟨_, rank, hr, _⟩ := (leads_iff_of_not_mem h).mp hl
      simp [Option.mem_def.mp hr]

theorem mem_of_select? (h : select? status entries = some entry) : entry ∈ entries :=
  List.mem_of_find?_eq_some (select?_eq_find? status entries ▸ h)

theorem leads_of_select? (h : select? status entries = some entry) :
    Leads (entries.map status) (status entry) := by
  rw [select?_eq_find?] at h
  simpa using List.find?_some h

theorem select?_eq_none_iff :
    select? status entries = none ↔ ∀ entry ∈ entries, ¬Succeeds (status entry) := by
  rw [select?, Option.or_eq_none_iff, Option.map_eq_none_iff, foldl_better_eq_none_iff, ranked,
    List.filterMap_eq_nil_iff, List.find?_eq_none]
  simp only [Option.map_eq_none_iff, rank?_eq_none_iff, decide_eq_true_iff]
  exact and_iff_right_of_imp fun hn entry hm he =>
    hn entry hm (.inl ⟨200, he.symm ▸ spellsSuccess_ok⟩)

-- Orders

theorem Leads.mem (h : Leads statuses s) : s ∈ statuses := by
  cases h
  case ok hm        => exact hm
  case code hm _    => exact hm
  case range _ hm _ => exact hm

-- What leads is chosen if it is declared first.
theorem exists_perm_of_leads (h : Leads (entries.map status) s) :
    ∃ entries', entries'.Perm entries ∧ (select? status entries').map status = some s := by
  obtain ⟨entry, hm, rfl⟩ := List.mem_map.mp h.mem
  obtain ⟨before, after, rfl⟩ := List.append_of_mem hm
  have hp : (entry :: (before ++ after)).Perm (before ++ entry :: after) := List.perm_middle.symm
  refine ⟨_, hp, ?_⟩
  rw [← leads_congr fun _ => (hp.map status).mem_iff] at h
  rw [select?_eq_find?, List.find?_cons_of_pos (by simpa using h), Option.map_some]

theorem eq_of_rel {a b : Option String} (h : Option.Rel (· = ·) a b) : a = b := by
  cases h
  case some h => exact congrArg some h
  case none   => rfl

-- In another order, what is chosen leads as well.
theorem rel_select? {R : String → String → Prop} (h : entries'.Perm entries)
    (hr : ∀ s t, Leads (entries.map status) s → Leads (entries.map status) t → R s t) :
    Option.Rel R ((select? status entries').map status) ((select? status entries).map status) := by
  have hn : select? status entries' = none ↔ select? status entries = none := by
    simp only [select?_eq_none_iff, h.mem_iff]
  cases hs : select? status entries'
  case none => rw [hn.mp hs]; exact .none
  case some =>
    cases ht : select? status entries
    case none => cases hs.symm.trans (hn.mpr ht)
    case some =>
      have hl := (leads_congr fun _ => (h.map status).mem_iff).mp (leads_of_select? hs)
      exact .some (hr _ _ hl (leads_of_select? ht))

-- The response that is chosen is the first of those that lead. So the order makes no difference
-- except where one code, or the range, is declared in several spellings.
structure Chooses (status : α → String) (entries : List α) : Prop where
  leads  : select? status entries =
    entries.find? fun entry => Leads (entries.map status) (status entry)
  absent : select? status entries = none ↔ ∀ entry ∈ entries, ¬Succeeds (status entry)
  alike  : ∀ entries', entries'.Perm entries →
    Option.Rel Alike ((select? status entries').map status) ((select? status entries).map status)
  same   : (∀ entries', entries'.Perm entries →
      (select? status entries').map status = (select? status entries).map status) ↔
    ∀ s t, Leads (entries.map status) s → Leads (entries.map status) t → s = t

theorem chooses_select? (status : α → String) (entries : List α) : Chooses status entries := by
  constructor
  case leads  => exact select?_eq_find? status entries
  case absent => exact select?_eq_none_iff
  case alike  => exact fun _ hp => rel_select? hp fun _ _ => alike_of_leads
  case same =>
    constructor
    case mp =>
      intro hall s t hs ht
      obtain ⟨_, hp, hs⟩ := exists_perm_of_leads hs
      obtain ⟨_, hq, ht⟩ := exists_perm_of_leads ht
      exact Option.some.inj (hs.symm.trans (hall _ hp) |>.trans (ht.symm.trans (hall _ hq)).symm)
    case mpr =>
      intro hu entries' hp
      exact eq_of_rel (rel_select? hp hu)

example : select? id ["default", "2XX", "+204", "0203"] = some "0203" := by
  decide

-- The range in two spellings; a code in two would do as well.
theorem not_same_spellings :
    ¬∀ statuses statuses' : List String, statuses.Nodup → statuses'.Perm statuses →
      select? id statuses' = select? id statuses := by
  intro hall
  have h := hall ["2XX", "2xx"] ["2xx", "2XX"] (by decide) (by decide)
  exact absurd h (by decide)

end ApiDescriptors.SuccessStatus
