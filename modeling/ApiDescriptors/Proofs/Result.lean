import ApiDescriptors.Error
import Mathlib.Data.List.Forall2
import Mathlib.Data.List.Perm.Basic

namespace ApiDescriptors

-- A value that comes last is dropped if it was there before.
theorem eraseDups_concat {α : Type} [DecidableEq α] (l : List α) (a : α) :
    (l ++ [a]).eraseDups = if a ∈ l then l.eraseDups else l.eraseDups ++ [a] := by
  rw [List.eraseDups_append, List.cons_removeAll]
  split <;> split <;> simp_all [List.eraseDups_cons]

-- Tables

theorem mem_of_lookup {α : Type} {table : List (String × α)} {name : String} {a : α}
    (h : table.lookup name = some a) : (name, a) ∈ table := by
  obtain ⟨before, after, rfl, _⟩ := List.lookup_eq_some_iff.mp h
  exact List.mem_append_right _ List.mem_cons_self

theorem lookup_of_mem {α : Type} {table : List (String × α)} {name : String} {a : α}
    (hn : (table.map (·.1)).Nodup) (h : (name, a) ∈ table) : table.lookup name = some a := by
  induction table
  case nil => cases h
  case cons entry table hi =>
    obtain ⟨hm, hn⟩ := List.nodup_cons.mp hn
    cases h
    case head   => exact List.lookup_cons_self
    case tail h =>
      have hne : (name == entry.1) = false :=
        beq_eq_false_iff_ne.mpr fun he => hm (List.mem_map.mpr ⟨_, h, he⟩)
      rw [List.lookup_cons, hne]
      exact hi hn h

theorem not_mem_of_lookup_eq_none {α : Type} {table : List (String × α)} {name : String}
    (h : table.lookup name = none) : name ∉ table.map (·.1) := by
  intro hm
  obtain ⟨entry, he, rfl⟩ := List.mem_map.mp hm
  simpa using List.lookup_eq_none_iff.mp h entry he

namespace Result

variable {ε α β γ δ : Type} {x : Except ε α} {f : α → Except ε β} {l : List α}

@[simp]
theorem ok_bind (a : α) (f : α → Except ε β) : (.ok a >>= f) = f a :=
  rfl

@[simp]
theorem error_bind (e : ε) (f : α → Except ε β) : (.error e >>= f) = .error e :=
  rfl

theorem bind_eq_ok {b : β} : (x >>= f) = .ok b ↔ ∃ a, x = .ok a ∧ f a = .ok b := by
  cases x <;> simp [bind, Except.bind]

theorem bind_eq_error {e : ε} :
    (x >>= f) = .error e ↔ x = .error e ∨ ∃ a, x = .ok a ∧ f a = .error e := by
  cases x <;> simp [bind, Except.bind]

theorem map_eq_ok {f : α → β} {b : β} : (f <$> x) = .ok b ↔ ∃ a, x = .ok a ∧ f a = b := by
  cases x <;> simp [Functor.map, Except.map]

theorem map_eq_error {f : α → β} {e : ε} : (f <$> x) = .error e ↔ x = .error e := by
  cases x <;> simp [Functor.map, Except.map]

theorem pure_eq_ok {a b : α} : (pure a : Except ε α) = .ok b ↔ a = b := by
  simp [pure, Except.pure]

theorem mapError_eq_ok {ε' : Type} {f : ε → ε'} {a : α} : x.mapError f = .ok a ↔ x = .ok a := by
  cases x <;> simp [Except.mapError]

theorem eq_ok_of_toOption_eq_some {a : α} (h : x.toOption = some a) : x = .ok a := by
  cases x
  case error => cases h
  case ok    => exact congrArg _ (Option.some.inj h)

theorem exists_of_map_toOption_eq_some {f : α → β} {b : β} (h : x.toOption.map f = some b) :
    ∃ a, x = .ok a ∧ f a = b := by
  obtain ⟨a, ha, hf⟩ := Option.map_eq_some_iff.mp h
  exact ⟨a, eq_ok_of_toOption_eq_some ha, hf⟩

theorem mapM_eq_ok {l' : List β} :
    l.mapM f = .ok l' ↔ List.Forall₂ (fun a b => f a = .ok b) l l' := by
  induction l generalizing l'
  case nil => cases l' <;> simp [pure, Except.pure]
  case cons a l hi =>
    rw [List.mapM_cons, bind_eq_ok]
    cases l'
    case nil => simp [map_eq_ok]
    case cons b l' =>
      simp only [bind_eq_ok, pure_eq_ok, hi, List.forall₂_cons, List.cons.injEq]
      exact ⟨fun ⟨_, ha, _, hl, hb, hl'⟩ => ⟨hb ▸ ha, hl' ▸ hl⟩,
        fun ⟨ha, hl⟩ => ⟨b, ha, l', hl, rfl, rfl⟩⟩

theorem mapM_cons_of_ok {a : α} {b : β} (h : f a = .ok b) :
    (a :: l).mapM f = List.cons b <$> l.mapM f := by
  rw [List.mapM_cons, h]
  rfl

theorem mapM_cons_of_error {a : α} {e : ε} (h : f a = .error e) :
    (a :: l).mapM f = .error e := by
  rw [List.mapM_cons, h]
  rfl

theorem mapM_eq_error {e : ε} (h : l.mapM f = .error e) : ∃ a ∈ l, f a = .error e := by
  induction l
  case nil => simp [pure, Except.pure] at h
  case cons a l hi =>
    cases ha : f a
    case error e' =>
      cases (mapM_cons_of_error ha).symm.trans h
      exact ⟨a, List.mem_cons_self, ha⟩
    case ok =>
      rw [mapM_cons_of_ok ha, map_eq_error] at h
      obtain ⟨a', hm, ha'⟩ := hi h
      exact ⟨a', List.mem_cons_of_mem _ hm, ha'⟩

theorem exists_mapM_eq_ok (h : ∀ a ∈ l, ∃ b, f a = .ok b) : ∃ l', l.mapM f = .ok l' := by
  cases he : l.mapM f
  case ok l'   => exact ⟨l', rfl⟩
  case error e =>
    have ⟨a, ha, hf⟩ := mapM_eq_error he
    have ⟨b, hb⟩ := h a ha
    cases hb.symm.trans hf

theorem exists_of_forall₂_of_mem {R : α → β → Prop} {l' : List β} {b : β} (h : List.Forall₂ R l l')
    (hb : b ∈ l') :
    ∃ a ∈ l, R a b := by
  induction h
  case nil => cases hb
  case cons hr _ hi =>
    cases hb
    case head    => exact ⟨_, List.mem_cons_self, hr⟩
    case tail hb =>
      have ⟨a, ha, hr⟩ := hi hb
      exact ⟨a, List.mem_cons_of_mem _ ha, hr⟩

theorem map_eq_of_forall₂ {p : α → γ} {q : β → γ} {l' : List β}
    (h : List.Forall₂ (fun a b => p a = q b) l l') :
    l.map p = l'.map q := by
  induction h
  case nil          => rfl
  case cons he _ hi => rw [List.map_cons, List.map_cons, he, hi]

theorem flatMap_eq_of_forall₂ {p : α → List γ} {q : β → List γ} {l' : List β}
    (h : List.Forall₂ (fun a b => p a = q b) l l') :
    l.flatMap p = l'.flatMap q := by
  rw [List.flatMap_def, List.flatMap_def, map_eq_of_forall₂ h]

theorem mem_of_mapM_eq_ok {l' : List β} {b : β} (h : l.mapM f = .ok l') (hb : b ∈ l') :
    ∃ a ∈ l, f a = .ok b :=
  exists_of_forall₂_of_mem (R := fun a b => f a = .ok b) (mapM_eq_ok.mp h) hb

theorem exists_of_mapM_eq_ok {l' : List β} {a : α} (h : l.mapM f = .ok l') (ha : a ∈ l) :
    ∃ b ∈ l', f a = .ok b :=
  exists_of_forall₂_of_mem (R := fun b a => f a = .ok b) (mapM_eq_ok.mp h).flip ha

theorem map_eq_of_mapM_eq_ok {l' : List β} {p : α → γ} {q : β → γ} (h : l.mapM f = .ok l')
    (hf : ∀ a b, f a = .ok b → q b = p a) : l'.map q = l.map p :=
  (map_eq_of_forall₂ ((mapM_eq_ok.mp h).imp fun a b hab => (hf a b hab).symm)).symm

theorem filterMap_eq_of_mapM_eq_ok {l' : List β} {p : α → Option γ} {q : β → γ}
    (h : l.mapM f = .ok l') (hf : ∀ a ∈ l, ∀ b, f a = .ok b → p a = some (q b)) :
    l.filterMap p = l'.map q := by
  replace h := mapM_eq_ok.mp h
  induction h
  case nil => rfl
  case cons a b _ _ hb _ hi =>
    rw [List.filterMap_cons_some (hf a List.mem_cons_self b hb), List.map_cons,
      hi fun a ha => hf a (List.mem_cons_of_mem _ ha)]

theorem exists_perm_of_mapM_eq_ok {l' : List α} {m : List β} (hp : l.Perm l')
    (h : l.mapM f = .ok m) :
    ∃ m', l'.mapM f = .ok m' ∧ m.Perm m' := by
  have ⟨m', hm, hp⟩ := List.perm_comp_forall₂ hp.symm (mapM_eq_ok.mp h)
  exact ⟨m', mapM_eq_ok.mpr hm, hp.symm⟩

end Result

-- A result that, where it is an error, is one of a kind.
def Result.FailsWith {α : Type} (P : Error → Prop) (x : Result α) : Prop :=
  ∀ e, x = .error e → P e

namespace Result.FailsWith

variable {α β : Type} {P : Error → Prop} {x : Result α} {f : α → Result β} {l : List α}

theorem ok (a : α) : FailsWith P (.ok a) :=
  nofun

theorem pure (a : α) : FailsWith P (Pure.pure a) :=
  nofun

theorem error {e : Error} (h : P e) : FailsWith (α := α) P (.error e) :=
  fun _ he => Except.error.inj he ▸ h

theorem imp {Q : Error → Prop} (hx : FailsWith P x) (hp : ∀ e, P e → Q e) : FailsWith Q x :=
  fun e he => hp e (hx e he)

theorem bind (hx : FailsWith P x) (hf : ∀ a, x = .ok a → FailsWith P (f a)) :
    FailsWith P (x >>= f) := by
  intro e he
  obtain he | ⟨a, ha, he⟩ := bind_eq_error.mp he
  case inl => exact hx e he
  case inr => exact hf a ha e he

theorem map {f : α → β} (hx : FailsWith P x) : FailsWith P (f <$> x) := by
  cases x
  case ok    => exact nofun
  case error => exact fun _ he => hx _ (by simpa [Functor.map, Except.map] using he)

theorem mapM (hf : ∀ a ∈ l, FailsWith P (f a)) : FailsWith P (l.mapM f) := by
  intro e he
  have ⟨a, ha, he⟩ := mapM_eq_error he
  exact hf a ha e he

theorem foldlM {f : β → α → Result β} (hf : ∀ b, ∀ a ∈ l, FailsWith P (f b a)) (b : β) :
    FailsWith P (l.foldlM f b) := by
  induction l generalizing b
  case nil => exact ok b
  case cons a l hi =>
    rw [List.foldlM_cons]
    exact bind (hf b a List.mem_cons_self) fun b _ =>
      hi (fun b a ha => hf b a (List.mem_cons_of_mem _ ha)) b

theorem readAt {rules : Record.Rules α} {node : Pointer} {value : Json}
    (h : ∀ fault, P (.undecodable node fault)) : FailsWith P (rules.readAt node value) := by
  simp only [Record.Rules.readAt]
  cases rules.read value
  case ok    => exact nofun
  case error => exact error (h _)

end Result.FailsWith

-- The chain of a result that is a cycle.
def Result.cycle? {α : Type} : Result α → Option (List Pointer)
  | .error (.cycle chain) => some chain
  | _                     => none

theorem Result.eq_error_of_cycle? {α : Type} {x : Result α} {chain : List Pointer}
    (h : x.cycle? = some chain) : x = .error (.cycle chain) := by
  simp only [cycle?] at h
  split at h <;> cases h
  rfl

-- The errors that tell of a fault in the program and not in the document.
def Error.isGeneral : Error → Bool
  | .badReference _ | .notLoaded _ | .notBuilt _ => true
  | _                                            => false

-- A result that is no general error.
abbrev Result.Specific {α : Type} (x : Result α) : Prop :=
  x.FailsWith fun e => e.isGeneral = false

-- The errors that tell what is wrong where a document is read, and not with what is made of it.
def Error.isOfReading : Error → Bool
  | .duplicateName .. => false
  | e                 => !e.isGeneral

abbrev Result.Legible {α : Type} (x : Result α) : Prop :=
  x.FailsWith fun e => e.isOfReading = true

-- The errors that tell what is wrong with a value, and not that a schema is missing.
def Error.isOfValue : Error → Bool
  | .invalid _ .schemaNotFound => false
  | e                          => e.isOfReading

abbrev Result.Readable {α : Type} (x : Result α) : Prop :=
  x.FailsWith fun e => e.isOfValue = true

theorem Result.Legible.specific {α : Type} {x : Result α} (h : x.Legible) : x.Specific := by
  refine h.imp fun e he => ?_
  simp only [Error.isOfReading] at he
  split at he
  · cases he
  · simpa using he

theorem Result.Readable.legible {α : Type} {x : Result α} (h : x.Readable) : x.Legible := by
  refine h.imp fun e he => ?_
  simp only [Error.isOfValue] at he
  split at he
  · cases he
  · exact he

-- Two results that both fail, or both succeed with related values. Which fault is found first may
-- depend on an order, so faults are not compared.
inductive Result.Alike {α β : Type} (R : α → β → Prop) : Result α → Result β → Prop
  | ok {a b} : R a b → Alike R (.ok a) (.ok b)
  | error {e e'} : Alike R (.error e) (.error e')

namespace Result.Alike

variable {α β γ δ : Type} {R : α → β → Prop} {S : γ → δ → Prop} {x : Result α} {y : Result β}

theorem refl (x : Result α) : Alike Eq x x := by
  cases x
  case ok    => exact .ok rfl
  case error => exact .error

theorem of_eq {y : Result α} (h : x = y) : Alike Eq x y :=
  h ▸ refl x

theorem of_not_ok (hx : ∀ a, x ≠ .ok a) (hy : ∀ b, y ≠ .ok b) : Alike R x y := by
  cases x
  case ok a => exact absurd rfl (hx a)
  case error =>
    cases y
    case ok b  => exact absurd rfl (hy b)
    case error => exact .error

theorem exists_ok {a : α} (h : Alike R x y) (hx : x = .ok a) : ∃ b, y = .ok b ∧ R a b := by
  cases h
  case ok b hr => exact ⟨b, rfl, Except.ok.inj hx ▸ hr⟩
  case error   => cases hx

theorem eq_ok_iff {y : Result α} {a : α} (h : Alike Eq x y) : x = .ok a ↔ y = .ok a := by
  cases h
  case ok he => rw [he]
  case error => exact ⟨nofun, nofun⟩

theorem bind {f : α → Result γ} {g : β → Result δ} (h : Alike R x y)
    (hf : ∀ a b, R a b → Alike S (f a) (g b)) :
    Alike S (x >>= f) (y >>= g) := by
  cases h
  case ok hr => exact hf _ _ hr
  case error => exact .error

theorem bind_eq {y : Result α} {f : α → Result γ} {g : α → Result δ} (h : Alike Eq x y)
    (hf : ∀ a, Alike S (f a) (g a)) :
    Alike S (x >>= f) (y >>= g) :=
  h.bind fun a _ he => he ▸ hf a

theorem map {f : α → γ} {g : β → δ} (h : Alike R x y) (hf : ∀ a b, R a b → S (f a) (g b)) :
    Alike S (f <$> x) (g <$> y) := by
  cases h
  case ok hr => exact .ok (hf _ _ hr)
  case error => exact .error

theorem mapM {l : List α} {f : α → Result γ} {g : α → Result δ}
    (hf : ∀ a ∈ l, Alike S (f a) (g a)) :
    Alike (List.Forall₂ S) (l.mapM f) (l.mapM g) := by
  induction l
  case nil => exact .ok .nil
  case cons a l hi =>
    rw [List.mapM_cons, List.mapM_cons]
    refine .bind (hf a List.mem_cons_self) fun _ _ hs => ?_
    exact .bind (hi fun a ha => hf a (List.mem_cons_of_mem _ ha)) fun _ _ hl => .ok (.cons hs hl)

theorem mapM_eq {l : List α} {f g : α → Result γ} (hf : ∀ a ∈ l, Alike Eq (f a) (g a)) :
    Alike Eq (l.mapM f) (l.mapM g) := by
  simpa only [List.forall₂_eq_eq_eq] using mapM hf

end Result.Alike

-- A result that succeeds where another one does, with the same value.
def Result.Kept {α : Type} (x y : Result α) : Prop :=
  ∀ a, x = .ok a → y = .ok a

namespace Result.Kept

variable {α β : Type} {x y : Result α} {f g : α → Result β} {l : List α}

theorem refl (x : Result α) : Kept x x :=
  fun _ h => h

theorem bind (h : Kept x y) (hf : ∀ a, x = .ok a → Kept (f a) (g a)) :
    Kept (x >>= f) (y >>= g) := by
  intro b hb
  have ⟨a, ha, hb⟩ := bind_eq_ok.mp hb
  exact bind_eq_ok.mpr ⟨a, h a ha, hf a ha b hb⟩

theorem map {f : α → β} (h : Kept x y) : Kept (f <$> x) (f <$> y) := by
  intro b hb
  have ⟨a, ha, hb⟩ := map_eq_ok.mp hb
  exact map_eq_ok.mpr ⟨a, h a ha, hb⟩

theorem mapM (hf : ∀ a ∈ l, Kept (f a) (g a)) : Kept (l.mapM f) (l.mapM g) := by
  induction l
  case nil => exact refl _
  case cons a l hi =>
    rw [List.mapM_cons, List.mapM_cons]
    refine .bind (hf a List.mem_cons_self) fun _ _ => ?_
    exact .bind (hi fun a ha => hf a (List.mem_cons_of_mem _ ha)) fun _ _ => refl _

end Result.Kept
end ApiDescriptors
