import ApiDescriptors.Proofs.Pointer

namespace ApiDescriptors.Pointer

open Percent

variable {c d x y : Char} {cs rest left right : List Char} {b : Nat}

-- Unescaping, from the end

-- What becomes of a character in front of characters that are unescaped already.
def unescapeStep : Char → List Char → List Char
  | '~', '0' :: cs => '~' :: cs
  | '~', '1' :: cs => '/' :: cs
  | c,   cs        => c :: cs

theorem unescape_eq_step (c : Char) (cs : List Char) :
    unescape (c :: cs) = unescapeStep c (unescape cs) := by
  by_cases hc : c = '~'
  case neg =>
    rw [unescape_cons_of_ne hc]
    fun_cases unescapeStep c (unescape cs) <;> simp_all
  case pos =>
    subst hc
    cases cs
    case nil => rfl
    case cons d cs =>
      obtain ⟨_, _, rfl, rfl, rfl | rfl⟩ | h := unescape_cons d cs
      case inl.inl => rfl
      case inl.inr => rfl
      case inr =>
        rw [h]
        by_cases h0 : d = '0'
        case pos => subst h0; rfl
        by_cases h1 : d = '1'
        case pos => subst h1; rfl
        simp [unescape, unescapeStep, h0, h1, h]

theorem unescape_append_congr (left : List Char) {right right' : List Char}
    (h : unescape right = unescape right') :
    unescape (left ++ right) = unescape (left ++ right') := by
  induction left
  case nil => exact h
  case cons c left hi =>
    rw [List.cons_append, List.cons_append, unescape_eq_step, unescape_eq_step, hi]

-- Respelling

-- Writes each encoded slash as the escape of a slash.
def respell : List Char → List Char
  | '%' :: x :: y :: cs =>
    if byte? x y = some '/'.toNat then '~' :: '1' :: respell cs else '%' :: respell (x :: y :: cs)
  | c :: cs => c :: respell cs
  | []      => []

theorem neutral_slash : Neutral '/' := by
  constructor <;> decide

theorem respell_cons
    (h : ∀ x y rest, c = '%' → cs = x :: y :: rest → byte? x y ≠ some '/'.toNat) :
    respell (c :: cs) = c :: respell cs := by
  rw [respell.eq_def]
  split
  case h_1 x y rest he => cases he; rw [if_neg (h x y rest rfl rfl)]
  case h_2 he          => cases he; rfl
  case h_3 he          => cases he

theorem respell_cons_of_ne (h : c ≠ '%') : respell (c :: cs) = c :: respell cs :=
  respell_cons fun _ _ _ hc _ => absurd hc h

theorem respell_append_slash (left right : List Char) :
    respell (left ++ '/' :: right) = respell left ++ '/' :: respell right := by
  fun_induction respell left
  case case1 hb hi => simp only [List.cons_append, respell, hb, if_true, hi]
  case case2 hb hi =>
    simp only [List.cons_append, respell, hb, if_false] at hi ⊢
    rw [hi]
  case case3 c cs hno hi =>
    rw [List.cons_append, respell_cons, hi, List.cons_append]
    intro x y l hc he
    rw [byte?_eq_none_of_append neutral_slash (fun x y l => hno x y l hc) he]
    nofun
  case case4 => rw [List.nil_append, respell_cons_of_ne (by decide)]; rfl

theorem respell_eq_nil_iff : respell cs = [] ↔ cs = [] := by
  fun_cases respell cs <;> simp

theorem mem_respell (h : d ∈ respell cs) : d ∈ cs ∨ d = '~' ∨ d = '1' := by
  fun_induction respell cs <;> grind

-- A hexadecimal digit is kept, and none is written anew.
theorem exists_of_respell_eq_cons (hx : isHexDigit x) (h : respell cs = x :: rest) :
    ∃ cs', cs = x :: cs' ∧ respell cs' = rest := by
  obtain ⟨hp, ht, _⟩ := ne_of_isHexDigit hx
  rw [respell.eq_def] at h
  split at h
  case h_1 =>
    split at h
    case isTrue  => exact absurd (List.cons.inj h).left.symm ht
    case isFalse => exact absurd (List.cons.inj h).left.symm hp
  case h_2 => cases h; exact ⟨_, rfl, rfl⟩
  case h_3 => cases h

theorem exists_of_byte?_respell (hb : byte? x y = some b) (h : respell cs = x :: y :: rest) :
    ∃ rest', cs = x :: y :: rest' := by
  obtain ⟨hx, hy⟩ := isHexDigit_of_byte? hb
  obtain ⟨_, rfl, hr⟩ := exists_of_respell_eq_cons hx h
  obtain ⟨rest', rfl, _⟩ := exists_of_respell_eq_cons hy hr
  exact ⟨rest', rfl⟩

theorem not_encodes_respell (cs : List Char) : ¬Encodes '/' (respell cs) := by
  fun_induction respell cs
  case case1 hi => rwa [encodes_cons_of_ne (by decide), encodes_cons_of_ne (by decide)]
  case case2 x y cs hb hi =>
    rw [encodes_cons_iff]
    rintro (⟨x', y', rest, hb', _, he⟩ | h)
    case inl =>
      obtain ⟨_, he⟩ := exists_of_byte?_respell hb' he
      cases he
      exact hb hb'
    case inr => exact hi h
  case case3 c cs hno hi =>
    rw [encodes_cons_iff]
    rintro (⟨x, y, rest, hb, hc, he⟩ | h)
    case inl =>
      obtain ⟨_, he⟩ := exists_of_byte?_respell hb he
      exact hno x y _ hc he
    case inr => exact hi h
  case case4 => exact not_encodes_nil

theorem respell_of_not_encodes (h : ¬Encodes '/' cs) : respell cs = cs := by
  fun_induction respell cs
  case case1 hb _ => exact absurd (encodes_cons_iff.mpr (.inl ⟨_, _, _, hb, rfl, rfl⟩)) h
  case case2 hi   => rw [hi fun he => h (encodes_cons_iff.mpr (.inr he))]
  case case3 hi   => rw [hi fun he => h (encodes_cons_iff.mpr (.inr he))]
  case case4      => rfl

-- Reading what is respelled

-- A character that begins no encoded byte begins none when what is behind it is respelled.
theorem unescape_go_respell_cons (run : List Nat)
    (hlit : ∀ x y rest, c = '%' → cs = x :: y :: rest → byte? x y = none)
    (h : unescape (decode.go [] (respell cs)) = unescape (decode.go [] cs)) :
    unescape (decode.go run (respell (c :: cs))) =
      unescape (Utf8.decode run.reverse ++ c :: decode.go [] cs) := by
  have hr : respell (c :: cs) = c :: respell cs := by
    refine respell_cons fun x y rest hc he => ?_
    rw [hlit x y rest hc he]
    nofun
  have hlit' (x y : Char) (rest : List Char) (hc : c = '%') (he : respell cs = x :: y :: rest) :
      byte? x y = none := by
    by_contra hb
    obtain ⟨b, hb⟩ := Option.ne_none_iff_exists'.mp hb
    obtain ⟨_, he⟩ := exists_of_byte?_respell hb he
    cases hb.symm.trans (hlit x y _ hc he)
  rw [hr, go_cons hlit']
  exact unescape_append_congr _ (unescape_append_congr [c] h)

-- Where a slash was encoded, one is escaped, and that is undone later.
theorem unescape_go_respell_slash (run : List Nat) (cs : List Char) :
    unescape (decode.go run ('~' :: '1' :: cs)) =
      unescape (decode.go ('/'.toNat :: run) cs) := by
  have hescaped : decode.go run ('~' :: '1' :: cs) =
      Utf8.decode run.reverse ++ '~' :: '1' :: decode.go [] cs := by
    rw [go_cons_of_ne (by decide), go_cons_of_ne (by decide)]
    rfl
  have hencoded : decode.go ('/'.toNat :: run) cs =
      Utf8.decode run.reverse ++ '/' :: decode.go [] cs :=
    go_append_run (by decide) [] run cs
  rw [hescaped, hencoded]
  exact unescape_append_congr _ rfl

theorem unescape_go_respell (run : List Nat) (cs : List Char) :
    unescape (decode.go run (respell cs)) = unescape (decode.go run cs) := by
  fun_induction decode.go run cs
  case case1 run x y cs b hb hi =>
    by_cases hs : b = '/'.toNat
    case pos =>
      subst hs
      rw [respell, if_pos hb, unescape_go_respell_slash, hi]
    case neg =>
      have hn : byte? x y ≠ some '/'.toNat := fun he => hs (Option.some.inj (hb.symm.trans he))
      obtain ⟨hx, hy⟩ := isHexDigit_of_byte? hb
      have hr : respell ('%' :: x :: y :: cs) = '%' :: x :: y :: respell cs := by
        rw [respell, if_neg hn, respell_cons_of_ne (ne_of_isHexDigit hx).left,
          respell_cons_of_ne (ne_of_isHexDigit hy).left]
      rw [hr, decode.go, hb]
      exact hi
  case case2 run x y cs hb hi =>
    refine unescape_go_respell_cons run (fun x' y' rest _ he => ?_) hi
    cases he
    exact hb
  case case3 run c cs hno hi =>
    exact unescape_go_respell_cons run (fun x y rest hc he => absurd he (hno x y rest hc)) hi
  case case4 => rfl

theorem readSegment_respell (part : List Char) : readSegment (respell part) = readSegment part :=
  congrArg String.ofList (unescape_go_respell [] part)

-- Once respelled, a text can be decoded before it is cut.
theorem splitAt_decode_respell (cs : List Char) :
    splitAt '/' (decode (respell cs)) = (splitAt '/' cs).map fun part => decode (respell part) := by
  apply splitAt_of_between (f := fun part => decode (respell part))
  case hf =>
    intro part rest
    rw [respell_append_slash, decode_append_cons neutral_slash]
  case hn =>
    intro part hp hm
    obtain hm | he := (mem_decode_iff neutral_slash).mp hm
    case inl =>
      obtain hm | he := mem_respell hm
      case inl => exact hp hm
      case inr => exact absurd he (by decide)
    case inr => exact not_encodes_respell part he

-- Pointers in which nothing is encoded

def ofText? : List Char → Option Pointer
  | []        => some root
  | '/' :: cs => some ⟨(splitAt '/' cs).map fun part => String.ofList (unescape part)⟩
  | _         => none

theorem ofText?_of_ne (h : c ≠ '/') : ofText? (c :: cs) = none := by
  simp [ofText?, h]

theorem decode_respell_slash (cs : List Char) :
    decode (respell ('/' :: cs)) = '/' :: decode (respell cs) := by
  rw [respell_cons_of_ne (by decide), decode_cons_of_ne (by decide)]

theorem exists_decode_respell_of_ne (h : c ≠ '/') (cs : List Char) :
    ∃ d rest, decode (respell (c :: cs)) = d :: rest ∧ d ≠ '/' := by
  have hnil (c : Char) (cs : List Char) : decode (respell (c :: cs)) ≠ [] := by
    rw [ne_eq, decode_eq_nil_iff, respell_eq_nil_iff]
    exact List.cons_ne_nil c cs
  cases hd : decode (respell (c :: cs))
  case nil => exact absurd hd (hnil c cs)
  case cons d rest =>
    refine ⟨d, rest, rfl, ?_⟩
    rintro rfl
    obtain ⟨part, parts, hs⟩ := splitAt_cons_of_ne h cs
    have hc := splitAt_decode_respell (c :: cs)
    rw [hd, hs, splitAt, if_pos rfl, List.map_cons] at hc
    exact hnil c part (List.cons.inj hc).left.symm

theorem fragment?_append (fragment : String) :
    fragment? ("#" ++ fragment).toList = some fragment.toList := by
  simp [fragment?]

theorem parse_eq_ok_iff (fragment : String) :
    (∃ p, parse ("#" ++ fragment) = .ok p) ↔
      fragment = "" ∨ fragment.toList.head? = some '/' := by
  rw [← String.toList_eq_nil_iff]
  simp only [parse, fragment?_append]
  cases hf : fragment.toList
  case nil => simp
  case cons c cs => by_cases hc : c = '/' <;> simp [hc]

theorem toOption_parse (fragment : String) :
    (parse ("#" ++ fragment)).toOption = ofText? (decode (respell fragment.toList)) := by
  simp only [parse, fragment?_append]
  cases hf : fragment.toList
  case nil => rfl
  case cons c cs =>
    by_cases hc : c = '/'
    case pos =>
      subst hc
      have hread : (fun part => String.ofList (unescape part)) ∘
          (fun part => decode (respell part)) = readSegment :=
        funext readSegment_respell
      rw [decode_respell_slash, ofText?, splitAt_decode_respell, List.map_map, hread]
      rfl
    case neg =>
      obtain ⟨d, rest, hd, hne⟩ := exists_decode_respell_of_ne hc cs
      rw [hd, ofText?_of_ne hne]
      simp [hc, Except.toOption]

-- If a slash is encoded in a pointer, it is cut in more places once all is decoded.
theorem ofText?_respell_ne (h : Encodes '/' cs) :
    ofText? ('/' :: decode (respell cs)) ≠ ofText? ('/' :: decode cs) := by
  intro he
  have hl := congrArg (·.elim 0 (·.segments.length)) he
  simp only [ofText?, Option.elim_some, List.length_map, splitAt_decode_respell,
    length_splitAt] at hl
  exact (count_decode_eq_iff neutral_slash).mp (by omega) h

theorem ofText?_respell_eq_iff :
    ofText? (decode (respell cs)) = ofText? (decode cs) ↔
      ¬(Encodes '/' cs ∧ (decode cs).head? = some '/') := by
  by_cases he : Encodes '/' cs
  case neg => rw [respell_of_not_encodes he]; exact iff_of_true rfl (mt And.left he)
  case pos =>
    rw [and_iff_right he]
    cases cs
    case nil => exact absurd he not_encodes_nil
    case cons c cs =>
      by_cases hc : c = '/'
      case pos =>
        subst hc
        rw [encodes_cons_of_ne (by decide)] at he
        rw [decode_respell_slash, decode_cons_of_ne (by decide)]
        exact iff_of_false (ofText?_respell_ne he) (not_not_intro rfl)
      case neg =>
        obtain ⟨d, rest, hd, hne⟩ := exists_decode_respell_of_ne hc cs
        rw [hd, ofText?_of_ne hne]
        cases hd' : decode (c :: cs)
        case nil => exact absurd (decode_eq_nil_iff.mp hd') (List.cons_ne_nil _ _)
        case cons d' rest' =>
          by_cases hs : d' = '/'
          case pos => subst hs; simp [ofText?]
          case neg => rw [ofText?_of_ne hs]; simp [hs]

-- How the text behind `#` is read. Percent-encoding is undone between the slashes only, so a slash
-- that is encoded belongs to its segment, as one that is escaped. Had all been decoded first, it
-- would be read differently if it has an encoded slash and is a pointer then.
structure ReadsFragment (fragment : String) : Prop where
  succeeds : (∃ p, parse ("#" ++ fragment) = .ok p) ↔
    fragment = "" ∨ fragment.toList.head? = some '/'
  reads    : (parse ("#" ++ fragment)).toOption = ofText? (decode (respell fragment.toList))
  agrees   : (parse ("#" ++ fragment)).toOption = ofText? (decode fragment.toList) ↔
    ¬(Encodes '/' fragment.toList ∧ (decode fragment.toList).head? = some '/')

theorem reads_fragment (fragment : String) : ReadsFragment fragment := by
  constructor
  case succeeds => exact parse_eq_ok_iff fragment
  case reads    => exact toOption_parse fragment
  case agrees   => rw [toOption_parse, ofText?_respell_eq_iff]

theorem not_agrees_encodedSlash :
    ¬∀ fragment : String,
      (parse ("#" ++ fragment)).toOption = ofText? (decode fragment.toList) := by
  intro hall
  have h := hall "/a%2Fb"
  exact absurd h (by decide +kernel)

end ApiDescriptors.Pointer
