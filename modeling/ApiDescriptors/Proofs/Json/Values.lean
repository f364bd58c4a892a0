import ApiDescriptors.Proofs.Document
import ApiDescriptors.Proofs.Json.Words

namespace ApiDescriptors.Json

open Reader

variable {v : Json} {depth fuel : Nat} {cs rest : List Char}

-- What is printed

theorem prettyItems_eq (depth : Nat) (items : List Json) :
    prettyItems depth items = items.map (pretty depth) := by
  induction items
  case nil => rfl
  case cons item items hi => rw [prettyItems, hi, List.map_cons]

theorem pretty_arr (depth : Nat) (items : List Json) :
    (arr items).pretty depth = block "[" "]" depth (items.map (pretty (depth + 1))) := by
  rw [pretty, prettyItems_eq]

-- The line of a member.
def memberText (depth : Nat) (member : String × Json) : String :=
  stringText member.1 ++ ": " ++ member.2.pretty depth

theorem prettyMembers_eq (depth : Nat) (members : Members) :
    prettyMembers depth members = members.map (memberText depth) := by
  induction members
  case nil => rfl
  case cons member members hi => rw [prettyMembers, hi, List.map_cons, memberText]

-- An object is printed with its members in order, each once and under its name.
theorem pretty_obj (depth : Nat) (members : Members) :
    (obj members).pretty depth =
      block openBrace closeBrace depth (members.map (memberText (depth + 1))) := by
  rw [pretty, prettyMembers_eq]

-- A line break with the indentation behind it.
def newLine (depth : Nat) : List Char :=
  '\n' :: List.replicate (2 * depth) ' '

-- What stands in a block behind one of its entries.
def blockRest (closing : String) (depth : Nat) : List String → List Char
  | []               => newLine depth ++ closing.toList
  | entry :: entries =>
    ',' :: newLine (depth + 1) ++ entry.toList ++ blockRest closing depth entries

theorem blockRest_cons_append (closing : String) (depth : Nat) (entry : String)
    (entries : List String) (rest : List Char) :
    blockRest closing depth (entry :: entries) ++ rest = ',' ::
      (newLine (depth + 1) ++ (entry.toList ++ (blockRest closing depth entries ++ rest))) := by
  simp only [blockRest, List.cons_append, List.append_assoc]

theorem newLine_succ (depth : Nat) : newLine (depth + 1) = newLine depth ++ [' ', ' '] := by
  rw [newLine, newLine, List.cons_append, Nat.mul_succ, List.replicate_add]
  rfl

theorem toList_intercalate_lines {line : String → String}
    (hl : ∀ entry, (line entry).toList = newLine (depth + 1) ++ entry.toList)
    (closing entry : String) (entries : List String) :
    (",".intercalate ((entry :: entries).map line)).toList ++ (newLine depth ++ closing.toList) =
      newLine (depth + 1) ++ (entry.toList ++ blockRest closing depth entries) := by
  induction entries generalizing entry
  case nil =>
    rw [List.map_singleton, String.intercalate_singleton, hl, List.append_assoc]
    rfl
  case cons entry' entries hi =>
    rw [List.map_cons, List.map_cons, String.intercalate_cons_cons, ← List.map_cons,
      String.toList_append, List.append_assoc, hi, String.toList_append, hl, List.append_assoc,
      List.append_assoc, blockRest, List.append_assoc]
    rfl

theorem toList_block_cons (opening closing : String) (depth : Nat) (entry : String)
    (entries : List String) :
    (block opening closing depth (entry :: entries)).toList = opening.toList ++
      (newLine (depth + 1) ++ (entry.toList ++ blockRest closing depth entries)) := by
  have hl (entry : String) :
      ("\n" ++ String.ofList (List.replicate (2 * depth) ' ') ++ "  " ++ entry).toList =
        newLine (depth + 1) ++ entry.toList := by
    rw [newLine_succ]
    simp [newLine]
  simp only [block]
  rw [← toList_intercalate_lines hl]
  simp [newLine]

theorem toList_null (depth : Nat) : (null.pretty depth).toList = ['n', 'u', 'l', 'l'] := by
  simp [pretty, scalarText]

theorem toList_true (depth : Nat) : ((bool true).pretty depth).toList = ['t', 'r', 'u', 'e'] := by
  simp [pretty, scalarText]

theorem toList_false (depth : Nat) :
    ((bool false).pretty depth).toList = ['f', 'a', 'l', 's', 'e'] := by
  simp [pretty, scalarText]

theorem toList_str (depth : Nat) (text : String) :
    ((str text).pretty depth).toList = '\x22' :: (text.toList.flatMap escape ++ ['\x22']) :=
  toList_stringText text

theorem toList_arr_nil (depth : Nat) : ((arr []).pretty depth).toList = ['[', ']'] := by
  simp [pretty_arr, block]

theorem toList_arr_cons (depth : Nat) (item : Json) (items : List Json) :
    ((arr (item :: items)).pretty depth).toList = '[' :: (newLine (depth + 1) ++
      ((item.pretty (depth + 1)).toList ++
        blockRest "]" depth (items.map (pretty (depth + 1))))) := by
  rw [pretty_arr, List.map_cons, toList_block_cons]
  rfl

theorem toList_memberText (depth : Nat) (member : String × Json) :
    (memberText depth member).toList = '\x22' :: (member.1.toList.flatMap escape ++
      '\x22' :: ':' :: ' ' :: (member.2.pretty depth).toList) := by
  simp [memberText, stringText]

theorem toList_obj_nil (depth : Nat) : ((obj []).pretty depth).toList = ['\x7b', '\x7d'] := by
  simp [pretty_obj, block, openBrace, closeBrace]

theorem toList_obj_cons (depth : Nat) (member : String × Json) (members : Members) :
    ((obj (member :: members)).pretty depth).toList = '\x7b' :: (newLine (depth + 1) ++
      ((memberText (depth + 1) member).toList ++
        blockRest closeBrace depth (members.map (memberText (depth + 1))))) := by
  rw [pretty_obj, List.map_cons, toList_block_cons]
  rfl

-- Values whose text loses nothing: numbers are read as they are written, and an object has no two
-- members of one name.
inductive Lossless : Json → Prop
  | null : Lossless .null
  | bool (value : Bool) : Lossless (.bool value)
  | int {n : Int} : -Int.pow 2 63 ≤ n → n < Int.pow 2 64 → Lossless (.int n)
  | double {x : Number.Double} : number (numberLayout.write x).toList = some (.double x, []) →
    Lossless (.double x)
  | str (text : String) : Lossless (.str text)
  | arr {items : List Json} : (∀ item ∈ items, Lossless item) → Lossless (.arr items)
  | obj {members : Members} : members.names.Nodup → (∀ m ∈ members, Lossless m.2) →
    Lossless (.obj members)

theorem lossless_arr_iff {items : List Json} :
    (arr items).Lossless ↔ ∀ item ∈ items, item.Lossless :=
  ⟨fun h => by cases h; assumption, .arr⟩

theorem lossless_obj_iff {members : Members} :
    (obj members).Lossless ↔ members.names.Nodup ∧ ∀ m ∈ members, m.2.Lossless :=
  ⟨fun h => by cases h; constructor <;> assumption, fun h => .obj h.left h.right⟩

theorem Lossless.lookup? {p : Pointer} {w : Json} (h : v.Lossless) (hp : p.lookup? v = some w) :
    w.Lossless :=
  of_lookup? (fun _ => lossless_arr_iff.mp) (fun _ h => (lossless_obj_iff.mp h).right) h hp

theorem Lossless.get? {name : String} {w : Json} (h : v.Lossless) (hw : v.get? name = some w) :
    w.Lossless := by
  cases v <;> simp only [Json.get?, reduceCtorEq] at hw
  case obj members => exact (lossless_obj_iff.mp h).right _ (mem_of_lookup hw)

-- Text that begins as a value does.
def Opens (cs : List Char) : Prop :=
  ∃ c cs', cs = c :: cs' ∧ (c ∈ ['n', 't', 'f', '\x22', '[', '\x7b'] ∨ isNumberPart c)

theorem Opens.append (h : Opens cs) (rest : List Char) : Opens (cs ++ rest) := by
  obtain ⟨c, cs, rfl, hc⟩ := h
  exact ⟨c, cs ++ rest, rfl, hc⟩

theorem opens_of_number (h : number cs = some (v, [])) : Opens cs := by
  obtain ⟨c, cs, he, hc⟩ := exists_part_of_number h
  exact ⟨c, cs, he, .inr hc⟩

theorem opens_block {opening : String} (h : Opens opening.toList) (closing : String) (depth : Nat)
    (entries : List String) : Opens (block opening closing depth entries).toList := by
  cases entries
  case nil                => exact String.toList_append ▸ h.append _
  case cons entry entries => exact toList_block_cons .. ▸ h.append _

theorem opens_memberText (depth : Nat) (member : String × Json) :
    Opens (memberText depth member).toList :=
  ⟨_, _, toList_memberText depth member, .inl (by decide)⟩

theorem Lossless.opens (h : Lossless v) (depth : Nat) : Opens (v.pretty depth).toList := by
  cases h
  case null => exact ⟨_, _, toList_null depth, .inl (by decide)⟩
  case bool value =>
    cases value
    case false => exact ⟨_, _, toList_false depth, .inl (by decide)⟩
    case true  => exact ⟨_, _, toList_true depth, .inl (by decide)⟩
  case int hl hu => exact opens_of_number (number_decimalInt hl hu)
  case double hx => exact opens_of_number hx
  case str text  => exact ⟨_, _, toList_str depth text, .inl (by decide)⟩
  case arr       => exact pretty_arr .. ▸ opens_block ⟨'[', [], rfl, .inl (by decide)⟩ ..
  case obj       => exact pretty_obj .. ▸ opens_block ⟨'\x7b', [], rfl, .inl (by decide)⟩ ..

-- What is read

theorem Opens.skipBlanks_eq (h : Opens cs) : skipBlanks cs = cs := by
  obtain ⟨c, cs, rfl, hc⟩ := h
  refine List.dropWhile_cons_of_neg fun hb => ?_
  obtain rfl | rfl | rfl | rfl := of_decide_eq_true hb <;> revert hc <;> decide

theorem skipBlanks_newLine (depth : Nat) (cs : List Char) :
    skipBlanks (newLine depth ++ cs) = skipBlanks cs := by
  refine List.dropWhile_append_of_pos fun c hc => ?_
  obtain rfl | hc := List.mem_cons.mp hc
  case inl => rfl
  case inr => rw [List.eq_of_mem_replicate hc]; rfl

theorem skipBlanks_sign {c : Char} (hc : c ∈ [',', ':', ']', '\x7d']) (cs : List Char) :
    skipBlanks (c :: cs) = c :: cs := by
  refine List.dropWhile_cons_of_neg fun hb => ?_
  obtain rfl | rfl | rfl | rfl := of_decide_eq_true hb <;> revert hc <;> decide

theorem skipBlanks_entry {entry : List Char} (h : Opens entry) (depth : Nat) (rest : List Char) :
    skipBlanks (newLine depth ++ (entry ++ rest)) = entry ++ rest :=
  (skipBlanks_newLine depth _).trans (h.append rest).skipBlanks_eq

theorem skipBlanks_blockRest_nil {closing : Char} (h : closing ∈ [',', ':', ']', '\x7d'])
    (depth : Nat) (rest : List Char) :
    skipBlanks (blockRest (String.ofList [closing]) depth [] ++ rest) = closing :: rest := by
  rw [blockRest, List.append_assoc, skipBlanks_newLine, String.toList_ofList]
  exact skipBlanks_sign h rest

theorem length_skipBlanks_le (cs : List Char) : (skipBlanks cs).length ≤ cs.length :=
  (List.dropWhile_suffix _).length_le

theorem length_le_of_skipBlanks_eq {c : Char} {front : List Char}
    (h : skipBlanks cs = front ++ c :: rest) : rest.length + 1 ≤ cs.length := by
  have hlength := length_skipBlanks_le cs
  rw [h, List.length_append, List.length_cons] at hlength
  omega

theorem stops_blockRest (closing : String) (depth : Nat) (entries : List String)
    (rest : List Char) : Stops (blockRest closing depth entries ++ rest) := by
  cases entries <;> exact fun _ hc => Option.some.inj hc ▸ rfl

-- The reader takes off the text of a value and leaves what stands behind it. Of two calls inside
-- one another at least one has taken a sign off, so twice what is left to read is enough fuel.
def Reads (v : Json) : Prop :=
  ∀ {depth fuel : Nat} {cs rest : List Char},
    skipBlanks cs = (v.pretty depth).toList ++ rest → Stops rest → 2 * cs.length < fuel →
      value fuel cs = some (v, rest)

theorem value_of_part {c : Char} (h : skipBlanks cs = c :: rest) (hc : isNumberPart c) :
    value (fuel + 1) cs = number (c :: rest) := by
  rw [value, h]
  split
  case h_7 => rfl
  all_goals
    rename_i he
    cases he
    cases hc

theorem reads_of_number {text : String} (ht : ∀ depth, v.pretty depth = text)
    (hn : number text.toList = some (v, [])) : Reads v := by
  intro depth fuel cs rest hc hs hf
  obtain ⟨fuel, rfl⟩ := Nat.exists_eq_add_one_of_ne_zero (Nat.ne_zero_of_lt hf)
  obtain ⟨c, cs', he, hp⟩ := exists_part_of_number hn
  rw [ht, he, List.cons_append] at hc
  rw [value_of_part hc hp, ← List.cons_append, ← he, number_append hn hs]

-- Arrays

theorem value_of_bracket (h : skipBlanks cs = '[' :: rest) (ho : Opens (skipBlanks rest)) :
    value (fuel + 1) cs = Reader.items fuel [] (skipBlanks rest) := by
  obtain ⟨c, cs', he, hc⟩ := ho
  simp only [value, h, he]
  split
  case h_1 hs => cases hs; exact absurd hc (by decide)
  case h_2    => rfl

-- The items of an array are read one after the other, up to the closing bracket.
theorem items_blockRest {item : Json} {items read : List Json}
    (hl : ∀ i ∈ item :: items, Lossless i) (hr : ∀ i ∈ item :: items, Reads i)
    (hc : skipBlanks cs = (item.pretty (depth + 1)).toList ++
      (blockRest "]" depth (items.map (pretty (depth + 1))) ++ rest))
    (hf : 2 * cs.length + 1 < fuel) :
    Reader.items fuel read cs = some (.arr (read.reverse ++ item :: items), rest) := by
  induction items generalizing item read fuel cs
  all_goals
    obtain ⟨fuel, rfl⟩ := Nat.exists_eq_add_one_of_ne_zero (Nat.ne_zero_of_lt hf)
    have hv := hr item List.mem_cons_self hc (stops_blockRest _ _ _ _) (show _ < fuel by omega)
    simp only [Reader.items, hv]
  case nil =>
    have hb : skipBlanks (blockRest "]" depth [] ++ rest) = ']' :: rest :=
      skipBlanks_blockRest_nil (by decide) depth rest
    simp only [List.map_nil, hb, List.reverse_cons]
  case cons item' items hi =>
    obtain ⟨_, hl⟩ := List.forall_mem_cons.mp hl
    obtain ⟨_, hr⟩ := List.forall_mem_cons.mp hr
    rw [List.map_cons, blockRest_cons_append] at hc ⊢
    have hlength := length_le_of_skipBlanks_eq hc
    have hopens := (hl item' List.mem_cons_self).opens (depth + 1)
    simp only [skipBlanks_sign (c := ',') (by decide)]
    rw [hi hl hr (skipBlanks_entry hopens ..) (by omega), List.reverse_cons, List.append_assoc,
      List.singleton_append]

theorem reads_arr {items : List Json} (hl : ∀ item ∈ items, Lossless item)
    (hr : ∀ item ∈ items, Reads item) : Reads (arr items) := by
  intro depth fuel cs rest hc hs hf
  obtain ⟨fuel, rfl⟩ := Nat.exists_eq_add_one_of_ne_zero (Nat.ne_zero_of_lt hf)
  cases items
  case nil =>
    rw [toList_arr_nil] at hc
    rw [value, hc]
    rfl
  case cons item items =>
    rw [toList_arr_cons, List.cons_append, List.append_assoc, List.append_assoc] at hc
    have hlength := length_skipBlanks_le cs
    simp only [hc, List.length_cons, List.length_append] at hlength
    have ho := (hl item List.mem_cons_self).opens (depth + 1)
    have hb := skipBlanks_entry ho (depth + 1)
      (blockRest "]" depth (items.map (pretty (depth + 1))) ++ rest)
    rw [value_of_bracket hc (by rw [hb]; exact ho.append _), hb]
    refine items_blockRest hl hr (ho.append _).skipBlanks_eq ?_
    simp only [List.length_append]
    omega

-- Objects

theorem value_of_brace (h : skipBlanks cs = '\x7b' :: rest) (ho : Opens (skipBlanks rest)) :
    value (fuel + 1) cs = Reader.members fuel [] (skipBlanks rest) := by
  obtain ⟨c, cs', he, hc⟩ := ho
  simp only [value, h, he]
  split
  case h_1 hs => cases hs; exact absurd hc (by decide)
  case h_2    => rfl

-- The parts of a member, one after the other.
theorem exists_parts_of_memberText {name : String} (hl : Lossless v) (hr : Reads v)
    (hc : skipBlanks cs = (memberText depth (name, v)).toList ++ rest) (hs : Stops rest)
    (hf : 2 * cs.length < fuel) :
    ∃ text entry, skipBlanks cs = '\x22' :: text ∧ string [] text = some (name, ':' :: entry) ∧
      value fuel entry = some (v, rest) := by
  have hlength := length_skipBlanks_le cs
  rw [toList_memberText] at hc
  simp only [List.cons_append, List.append_assoc] at hc
  simp only [hc, List.length_cons, List.length_append] at hlength
  have hblank : skipBlanks (' ' :: ((v.pretty depth).toList ++ rest)) =
      (v.pretty depth).toList ++ rest :=
    (List.dropWhile_cons_of_pos rfl).trans ((hl.opens depth).append rest).skipBlanks_eq
  refine ⟨_, _, hc, string_flatMap_escape name _, hr hblank hs ?_⟩
  simp only [List.length_cons, List.length_append]
  omega

-- The members of an object are, too. Every name is new, so each member goes to the end.
theorem members_blockRest {member : String × Json} {members read : Members}
    (hl : ∀ m ∈ member :: members, Lossless m.2) (hr : ∀ m ∈ member :: members, Reads m.2)
    (hn : (read.names ++ Members.names (member :: members)).Nodup)
    (hc : skipBlanks cs = (memberText (depth + 1) member).toList ++
      (blockRest closeBrace depth (members.map (memberText (depth + 1))) ++ rest))
    (hf : 2 * cs.length + 1 < fuel) :
    Reader.members fuel read cs = some (.obj (read ++ member :: members), rest) := by
  induction members generalizing member read fuel cs
  all_goals
    obtain ⟨fuel, rfl⟩ := Nat.exists_eq_add_one_of_ne_zero (Nat.ne_zero_of_lt hf)
    obtain ⟨text, entry, hquote, hs, hv⟩ := exists_parts_of_memberText (hl _ List.mem_cons_self)
      (hr _ List.mem_cons_self) hc (stops_blockRest _ _ _ _) (show _ < fuel by omega)
    have hnew : member.1 ∉ read.names := fun hm =>
      (List.nodup_append.mp hn).right.right _ hm _ List.mem_cons_self rfl
    have hcolon : skipBlanks (':' :: entry) = ':' :: entry := skipBlanks_sign (by decide) entry
    simp only [Reader.members, hquote, hs, hcolon, hv, Members.insert_of_not_mem hnew]
  case nil =>
    have hb : skipBlanks (blockRest closeBrace depth [] ++ rest) = '\x7d' :: rest :=
      skipBlanks_blockRest_nil (by decide) depth rest
    simp only [List.map_nil, hb]
  case cons member' members hi =>
    obtain ⟨_, hl⟩ := List.forall_mem_cons.mp hl
    obtain ⟨_, hr⟩ := List.forall_mem_cons.mp hr
    have hn : ((read ++ [member]).names ++ Members.names (member' :: members)).Nodup := by
      rwa [Members.names_append, List.append_assoc]
    rw [List.map_cons, blockRest_cons_append] at hc ⊢
    have hlength := length_le_of_skipBlanks_eq hc
    have hopens := opens_memberText (depth + 1) member'
    simp only [skipBlanks_sign (c := ',') (by decide)]
    rw [hi hl hr hn (skipBlanks_entry hopens ..) (by omega), List.append_assoc,
      List.singleton_append]

theorem reads_obj {members : Members} (hn : members.names.Nodup)
    (hl : ∀ m ∈ members, Lossless m.2) (hr : ∀ m ∈ members, Reads m.2) : Reads (obj members) := by
  intro depth fuel cs rest hc hs hf
  obtain ⟨fuel, rfl⟩ := Nat.exists_eq_add_one_of_ne_zero (Nat.ne_zero_of_lt hf)
  cases members
  case nil =>
    rw [toList_obj_nil] at hc
    rw [value, hc]
    rfl
  case cons member members =>
    rw [toList_obj_cons, List.cons_append, List.append_assoc, List.append_assoc] at hc
    have hlength := length_skipBlanks_le cs
    simp only [hc, List.length_cons, List.length_append] at hlength
    have ho := opens_memberText (depth + 1) member
    have hb := skipBlanks_entry ho (depth + 1)
      (blockRest closeBrace depth (members.map (memberText (depth + 1))) ++ rest)
    rw [value_of_brace hc (by rw [hb]; exact ho.append _), hb]
    refine members_blockRest hl hr hn (ho.append _).skipBlanks_eq ?_
    simp only [List.length_append]
    omega

theorem Lossless.reads (h : Lossless v) : Reads v := by
  induction h
  case int hl hu       => exact reads_of_number (fun _ => rfl) (number_decimalInt hl hu)
  case double hx       => exact reads_of_number (fun _ => rfl) hx
  case arr items hl hr => exact reads_arr hl hr
  case obj hn hl hr    => exact reads_obj hn hl hr
  all_goals
    intro depth fuel cs rest hc hs hf
    obtain ⟨fuel, rfl⟩ := Nat.exists_eq_add_one_of_ne_zero (Nat.ne_zero_of_lt hf)
    rw [value, hc]
  case null       => rw [toList_null]; rfl
  case bool value =>
    cases value
    case false => rw [toList_false]; rfl
    case true  => rw [toList_true]; rfl
  case str text   =>
    rw [toList_str, List.cons_append, List.append_assoc, List.singleton_append]
    simp [string_flatMap_escape]

-- What is printed is read back.
theorem ofText?_pretty (h : Lossless v) : ofText? (v.pretty 0 ++ "\n") = some v := by
  have hc : (v.pretty 0 ++ "\n").toList = (v.pretty 0).toList ++ ['\n'] := String.toList_append
  have hs : Stops ['\n'] := fun _ hc => Option.some.inj hc ▸ rfl
  have hr := h.reads ((h.opens 0).append ['\n']).skipBlanks_eq hs
    (show _ < 2 * ((v.pretty 0).toList ++ ['\n']).length + 2 by omega)
  simp only [ofText?, hc, hr]
  rfl

end ApiDescriptors.Json
