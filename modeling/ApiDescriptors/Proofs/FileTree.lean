import ApiDescriptors.FileTree
import ApiDescriptors.Proofs.Split

namespace ApiDescriptors.FileTree

variable {t t' : FileTree} {place other : List String} {way : List String}
  {path directory name contents : String}

-- The places that names lead to one after the other.
def along (place : List String) : List String → List (List String)
  | []          => []
  | name :: way => step place name :: along (step place name) way

-- The place of a name in the directory that a path leads to.
def target (t : FileTree) (directory name : String) : List String :=
  (names directory).foldl step (t.start directory) ++ [name]

-- A file can be created in a directory: no other file is on the way there, and no directory is, or
-- will be when the directory is made, where the file goes.
structure Creatable (t : FileTree) (directory name : String) : Prop where
  way   : ∀ place ∈ along (t.start directory) (names directory), t.isFile place = false
  free  : t.isDirectory (t.target directory name) = false
  aside : t.target directory name ∉ along (t.start directory) (names directory)

-- Names that are neither empty nor stand for other places, with no slash.
structure IsPlain (name : String) : Prop where
  slash    : '/' ∉ name.toList
  nonempty : name ≠ ""
  self     : name ≠ "."
  parent   : name ≠ ".."

theorem IsPlain.step (h : IsPlain name) (place : List String) :
    step place name = place ++ [name] := by
  rw [FileTree.step, if_neg (not_or.mpr ⟨h.nonempty, h.self⟩), if_neg h.parent]

theorem IsPlain.names_eq (h : IsPlain name) : names name = [name] := by
  rw [names, splitAt_of_not_mem h.slash, List.map_singleton, String.ofList_toList]

-- Directories

theorem isDirectory_start (t : FileTree) (path : String) : t.isDirectory (t.start path) := by
  rw [start]
  split <;> simp [isDirectory]

theorem isDirectory_makeDirectory :
    (t.makeDirectory place).isDirectory other ↔ t.isDirectory other ∨ other = place := by
  rw [makeDirectory]
  split
  case isTrue h  => exact ⟨.inl, fun ho => ho.elim id fun he => he ▸ h⟩
  case isFalse h =>
    simp only [isDirectory, List.mem_cons, Bool.or_eq_true, decide_eq_true_eq]
    tauto

@[simp]
theorem files_makeDirectory (t : FileTree) (place : List String) :
    (t.makeDirectory place).files = t.files := by
  rw [makeDirectory]
  split <;> rfl

@[simp]
theorem current_makeDirectory (t : FileTree) (place : List String) :
    (t.makeDirectory place).current = t.current := by
  rw [makeDirectory]
  split <;> rfl

@[simp]
theorem isFile_makeDirectory (t : FileTree) (place other : List String) :
    (t.makeDirectory place).isFile other = t.isFile other := by
  rw [isFile, contents?, files_makeDirectory, isFile, contents?]

-- Files stay as they are where directories are made, also where that fails.
@[simp]
theorem files_makeAlong (t : FileTree) (place way : List String) :
    (t.makeAlong place way).1.files = t.files := by
  induction way generalizing t place
  case nil => rfl
  case cons name way hi =>
    rw [makeAlong]
    split
    case isTrue  => rfl
    case isFalse => rw [hi, files_makeDirectory]

@[simp]
theorem current_makeAlong (t : FileTree) (place way : List String) :
    (t.makeAlong place way).1.current = t.current := by
  induction way generalizing t place
  case nil => rfl
  case cons name way hi =>
    rw [makeAlong]
    split
    case isTrue  => rfl
    case isFalse => rw [hi, current_makeDirectory]

theorem makeAlong_snd_iff :
    (t.makeAlong place way).2 = true ↔ ∀ other ∈ along place way, t.isFile other = false := by
  induction way generalizing t place
  case nil => simp [makeAlong, along]
  case cons name way hi =>
    rw [makeAlong, along, List.forall_mem_cons]
    split
    case isTrue h  => simp [h]
    case isFalse h => simp [hi, h]

theorem isDirectory_makeAlong (h : (t.makeAlong place way).2 = true) :
    (t.makeAlong place way).1.isDirectory other ↔
      t.isDirectory other ∨ other ∈ along place way := by
  induction way generalizing t place
  case nil => simp [makeAlong, along]
  case cons name way hi =>
    rw [makeAlong] at h ⊢
    split at h
    case isTrue     => cases h
    case isFalse hf =>
      rw [if_neg hf, hi h, isDirectory_makeDirectory, along, List.mem_cons, or_assoc]

-- Following paths

theorem foldlM_follow?_concat (hp : t.isDirectory place)
    (h : ∀ other ∈ along place way, t.isDirectory other) (name : String) :
    (way ++ [name]).foldlM t.follow? place = some (step (way.foldl step place) name) := by
  induction way generalizing place
  case nil => simp [follow?, hp]
  case cons first way hi =>
    have ⟨hn, h⟩ := List.forall_mem_cons.mp h
    rw [List.cons_append, List.foldlM_cons, follow?, if_pos hp]
    exact hi hn h

theorem foldlM_follow?_mono (hd : ∀ other, t.isDirectory other → t'.isDirectory other)
    (h : way.foldlM t.follow? place = some other) : way.foldlM t'.follow? place = some other := by
  induction way generalizing place
  case nil => exact h
  case cons name way hi =>
    have ⟨next, hn, h⟩ := Option.bind_eq_some_iff.mp h
    rw [follow?] at hn
    split at hn
    case isFalse   => cases hn
    case isTrue hp =>
      rw [List.foldlM_cons, follow?, if_pos (hd _ hp)]
      exact hi (Option.some.inj hn ▸ h)

theorem place?_mono (h : t.place? path = some place) (hc : t'.current = t.current)
    (hd : ∀ other, t.isDirectory other → t'.isDirectory other) :
    t'.place? path = some place := by
  rw [place?, start, hc]
  exact foldlM_follow?_mono hd h

theorem along_append (place : List String) (way way' : List String) :
    along place (way ++ way') = along place way ++ along (way.foldl step place) way' := by
  induction way generalizing place
  case nil           => rfl
  case cons _ _ hi => rw [List.cons_append, along, hi]; rfl

theorem start_join (t : FileTree) (h : IsPlain name) :
    t.start (join directory name) = t.start directory := by
  have hn : name.toList.head? ≠ some '/' := fun hs => h.slash (List.mem_of_mem_head? hs)
  have hh : (join directory name).toList.head? = some '/' ↔ directory.toList.head? = some '/' := by
    rw [join]
    split <;> cases hd : directory.toList <;> simp_all
  simp only [start, hh]

-- The name comes after those in the directory, of which an empty one may be left out.
theorem names_join (directory : String) (h : IsPlain name) :
    ∃ way rest, names (join directory name) = way ++ [name] ∧ names directory = way ++ rest ∧
      ∀ place, rest.foldl step place = place := by
  have hs (place : List String) : [""].foldl step place = place := by simp [step]
  rw [join]
  split
  case h_1 hd =>
    cases String.toList_eq_nil_iff.mp (List.getLast?_eq_none_iff.mp hd)
    exact ⟨[], [""], by rw [String.empty_append, h.names_eq]; rfl, rfl, hs⟩
  case h_2 hd =>
    have ⟨cs, hcs⟩ := List.getLast?_eq_some_iff.mp hd
    refine ⟨(splitAt '/' cs).map String.ofList, [""], ?_, ?_, hs⟩
    · rw [names, String.toList_append, hcs, List.append_assoc, List.singleton_append,
        splitAt_append, List.map_append, ← names, h.names_eq]
    · rw [names, hcs, splitAt_append, List.map_append]; rfl
  case h_3 =>
    have hd : (directory ++ "/" ++ name).toList = directory.toList ++ '/' :: name.toList := by simp
    refine ⟨names directory, [], ?_, (List.append_nil _).symm, fun _ => rfl⟩
    rw [names, hd, splitAt_append, List.map_append, ← names, ← names, h.names_eq]

-- In a directory that was made, a name leads to a place.
theorem place?_join (h : IsPlain name) (hc : t'.current = t.current)
    (hd : ∀ other ∈ along (t.start directory) (names directory), t'.isDirectory other) :
    t'.place? (join directory name) = some (t.target directory name) := by
  have hstart : t'.start directory = t.start directory := by rw [start, hc, start]
  have ⟨way, rest, hn, hw, hrest⟩ := names_join directory h
  rw [hw, along_append] at hd
  rw [place?, start_join t' h, hstart, hn, foldlM_follow?_concat (hstart ▸ t'.isDirectory_start _)
    (fun other ho => hd other (List.mem_append_left _ ho)), h.step, target, hw, List.foldl_append,
    hrest]

-- The directory that a file lies in

theorem foldl_step_mem_along (place : List String) (h : way ≠ []) :
    way.foldl step place ∈ along place way := by
  induction way generalizing place
  case nil => exact absurd rfl h
  case cons name way hi =>
    rw [List.foldl_cons, along]
    cases way
    case nil         => exact List.mem_cons_self
    case cons name _ => exact List.mem_cons_of_mem _ (hi _ nofun)

-- Where all directories are there already, none is made.
theorem makeAlong_eq_self (hf : ∀ other ∈ along place way, t.isFile other = false)
    (hd : ∀ other ∈ along place way, t.isDirectory other) : t.makeAlong place way = (t, true) := by
  induction way generalizing place
  case nil => rfl
  case cons name way hi =>
    have ⟨hf, hfs⟩ := List.forall_mem_cons.mp hf
    have ⟨hd, hds⟩ := List.forall_mem_cons.mp hd
    rw [makeAlong, if_neg (Bool.eq_false_iff.mp hf), makeDirectory, if_pos hd]
    exact hi hfs hds

theorem parent_append (h : '/' ∉ name.toList)
    (hd : directory = "" ∨ directory.toList.getLast? = some '/') :
    parent (directory ++ name) = directory := by
  have hn : ∀ c ∈ name.toList.reverse, decide (c ≠ '/') = true := fun c hc =>
    decide_eq_true fun he => h (he ▸ List.mem_reverse.mp hc)
  rw [parent, String.toList_append, List.reverse_append, List.dropWhile_append_of_pos hn]
  obtain rfl | hd := hd
  · rfl
  · have ⟨cs, hcs⟩ := List.getLast?_eq_some_iff.mp hd
    simp [hcs, ← String.toList_inj]

-- The path to the directory of a file in a directory is that of the latter, or has a slash more.
theorem parent_join (directory : String) (h : IsPlain name) :
    parent (join directory name) = directory ∨
      directory ≠ "" ∧ parent (join directory name) = directory ++ "/" := by
  rw [join]
  split
  case h_1 hd =>
    have hd := String.toList_eq_nil_iff.mp (List.getLast?_eq_none_iff.mp hd)
    exact .inl (parent_append h.slash (.inl hd))
  case h_2 hd => exact .inl (parent_append h.slash (.inr hd))
  case h_3 hd _ =>
    refine .inr ⟨fun he => hd (by rw [he]; rfl), parent_append h.slash (.inr ?_)⟩
    simp

theorem mem_along_parent (t : FileTree) (h : IsPlain name)
    (ho : other ∈ along (t.start (parent (join directory name)))
      (names (parent (join directory name)))) :
    other ∈ along (t.start directory) (names directory) := by
  obtain hp | ⟨hd, hp⟩ := parent_join directory h
  case inl => rwa [hp] at ho
  case inr =>
    have hstart : t.start (directory ++ "/") = t.start directory := by
      have hd := mt String.toList_eq_nil_iff.mp hd
      rw [start, start, String.toList_append, List.head?_append_of_ne_nil _ hd]
    have hnames : names (directory ++ "/") = names directory ++ [""] := by
      have hs : (directory ++ "/").toList = directory.toList ++ '/' :: [] := String.toList_append
      rw [names, hs, splitAt_append, List.map_append]
      rfl
    rw [hp, hstart, hnames, along_append, List.mem_append] at ho
    obtain ho | ho := ho
    case inl => exact ho
    case inr =>
      cases List.mem_singleton.mp ho
      have hn : names directory ≠ [] := mt List.map_eq_nil_iff.mp (splitAt_ne_nil _ _)
      exact foldl_step_mem_along _ hn

-- A file in a directory that was made has its directory already.
theorem makeDirectories_parent (h : IsPlain name) (hm : t.makeDirectories directory = (t', true)) :
    t'.makeDirectories (parent (join directory name)) = (t', true) := by
  have hmade : (t.makeDirectories directory).2 = true := by rw [hm]
  have ht : (t.makeDirectories directory).1 = t' := by rw [hm]
  subst ht
  have hstart (path : String) : (t.makeDirectories directory).1.start path = t.start path := by
    rw [start, makeDirectories, current_makeAlong, ← start]
  have hmem (other : List String) (ho : other ∈ along
      ((t.makeDirectories directory).1.start (parent (join directory name)))
      (names (parent (join directory name)))) :
      other ∈ along (t.start directory) (names directory) :=
    mem_along_parent t h (hstart _ ▸ ho)
  refine makeAlong_eq_self (fun other ho => ?_) fun other ho => ?_
  · rw [isFile, contents?, makeDirectories, files_makeAlong, ← contents?, ← isFile]
    exact makeAlong_snd_iff.mp hmade other (hmem other ho)
  · exact (isDirectory_makeAlong hmade).mpr (.inr (hmem other ho))

-- Reading and writing

theorem has_of_read? (h : t.read? path = some contents) : t.has path := by
  have ⟨place, hp, hc⟩ := Option.bind_eq_some_iff.mp h
  simp [has, hp, isFile, hc]

theorem lookup_filter_ne {files : List (List String × String)} (h : other ≠ place) :
    (files.filter (·.1 ≠ place)).lookup other = files.lookup other := by
  induction files
  case nil => rfl
  case cons file files hi =>
    by_cases hp : file.1 = place
    case pos =>
      rw [List.filter_cons_of_neg (by simpa using hp), hi, List.lookup_cons,
        beq_eq_false_iff_ne.mpr (hp ▸ h)]
    case neg =>
      rw [List.filter_cons_of_pos (by simpa using hp), List.lookup_cons, List.lookup_cons, hi]

theorem contents?_put_self (t : FileTree) (place : List String) (contents : String) :
    (t.put place contents).contents? place = some contents := by
  simp [put, contents?]

-- Writing a file changes no other.
theorem contents?_put_of_ne (t : FileTree) (h : other ≠ place) (contents : String) :
    (t.put place contents).contents? other = t.contents? other := by
  rw [put, contents?, List.lookup_cons, beq_eq_false_iff_ne.mpr h]
  exact lookup_filter_ne h

theorem isDirectory_put (h : t.isDirectory other) : (t.put place contents).isDirectory other := by
  rw [isDirectory, Bool.or_eq_true] at h ⊢
  refine h.imp_right fun h => ?_
  have ⟨file, hf, hb⟩ := List.any_eq_true.mp h
  rw [put, List.any_cons, Bool.or_eq_true, List.any_eq_true]
  by_cases he : file.1 = place
  case pos => exact .inl (he ▸ hb)
  case neg => exact .inr ⟨file, List.mem_filter.mpr ⟨hf, decide_eq_true he⟩, hb⟩

theorem write?_eq_some : t.write? path contents = some t' ↔
    ∃ place, t.place? path = some place ∧ t.isDirectory place = false ∧
      t' = t.put place contents := by
  rw [write?, Option.bind_eq_bind, Option.bind_eq_some_iff]
  refine exists_congr fun place => and_congr_right fun _ => ?_
  cases t.isDirectory place
  case true  => exact ⟨nofun, nofun⟩
  case false => simp [eq_comm]

-- What was written is read again, and nothing else is changed.
theorem read?_of_write? (h : t.write? path contents = some t') :
    t'.read? path = some contents ∧
      ∀ other, t'.contents? other ≠ t.contents? other → t'.place? path = some other := by
  have ⟨place, hp, _, he⟩ := write?_eq_some.mp h
  subst he
  have hp : (t.put place contents).place? path = some place :=
    place?_mono hp rfl fun _ ho => isDirectory_put ho
  refine ⟨by rw [read?, hp]; exact contents?_put_self .., fun other hne => ?_⟩
  have he : other = place := by_contra fun he => hne (contents?_put_of_ne t he contents)
  rw [he, hp]

-- A file can be created where making its directory and writing it succeed.
theorem creatable_iff (t : FileTree) (h : IsPlain name) (directory contents : String) :
    t.Creatable directory name ↔ (t.makeDirectories directory).2 = true ∧
      ∃ t', (t.makeDirectories directory).1.write? (join directory name) contents = some t' := by
  have hmade (hm : (t.makeDirectories directory).2 = true) :
      (t.makeDirectories directory).1.place? (join directory name) =
        some (t.target directory name) :=
    place?_join h (current_makeAlong ..) fun _ ho => (isDirectory_makeAlong hm).mpr (.inr ho)
  constructor
  case mp =>
    intro hc
    have hm := makeAlong_snd_iff.mpr hc.way
    refine ⟨hm, _, write?_eq_some.mpr ⟨_, hmade hm, ?_, rfl⟩⟩
    refine Bool.eq_false_iff.mpr fun hd => ?_
    obtain hd | hd := (isDirectory_makeAlong hm).mp hd
    · exact Bool.eq_false_iff.mp hc.free hd
    · exact hc.aside hd
  case mpr =>
    intro ⟨hm, t', hw⟩
    have ⟨place, hp, hd, _⟩ := write?_eq_some.mp hw
    cases (hmade hm).symm.trans hp
    have hd := (not_congr (isDirectory_makeAlong hm)).mp (Bool.eq_false_iff.mp hd)
    have ⟨hfree, haside⟩ := not_or.mp hd
    exact ⟨makeAlong_snd_iff.mp hm, Bool.eq_false_iff.mpr hfree, haside⟩

end ApiDescriptors.FileTree
