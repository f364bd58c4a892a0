import ApiDescriptors.Proofs.FreshNames

namespace ApiDescriptors.Namespace

-- A call for a name: for this very name, or for the first candidate that is free.
inductive Call
  | claim (name : String) (node : Pointer)
  | claimFree (ids : Identifiers) (base suffix : String) (node : Pointer)

-- The node that the name is meant for.
def Call.node : Call → Pointer
  | claim _ node         => node
  | claimFree _ _ _ node => node

-- What a call is answered, with the namespace after it.
def answer (ns : Namespace) : Call → Result String × Namespace
  | .claim name node =>
    match ns.claim name node with
    | .ok (name, ns') => (.ok name, ns')
    | .error e        => (.error e, ns)
  | .claimFree ids base suffix node =>
    let (name, ns') := ns.claimFree ids base suffix node
    (.ok name, ns')

-- The answers to calls that are made one after the other, with the namespace after the last one.
def run (ns : Namespace) : List Call → List (Result String) × Namespace
  | []            => ([], ns)
  | call :: calls =>
    let (first, ns)  := ns.answer call
    let (others, ns) := ns.run calls
    (first :: others, ns)

-- The names that calls are given, each with the node of its call.
def given (ns : Namespace) (calls : List Call) : List (String × Pointer) :=
  (calls.zip (ns.run calls).1).filterMap fun (call, answer) =>
    answer.toOption.map fun name => (name, call.node)

variable {ns : Namespace} {call : Call} {before calls after : List Call}

-- A call is given a name that no one has, or asks for one that another call has and is refused.
theorem answer_cases (ns : Namespace) (call : Call) :
    (∃ name, ns.contains name = false ∧ ns.answer call = (.ok name, ns.add name call.node)) ∨
    ∃ name first node, call = .claim name node ∧ ns.claimed.lookup name = some first ∧
      ns.answer call = (.error (.duplicateName ns.kind name first node), ns) := by
  cases call
  case claimFree ids base suffix node => exact .inl ⟨_, ns.contains_freeName ids base suffix, rfl⟩
  case claim name node =>
    simp only [answer, claim, contains]
    cases hl : ns.claimed.lookup name
    case none       => exact .inl ⟨name, by simp [hl], rfl⟩
    case some first => exact .inr ⟨name, first, node, rfl, hl, rfl⟩

theorem answer_claim (ns : Namespace) (name : String) (node : Pointer) :
    (ns.answer (.claim name node)).1 =
      match ns.claimed.lookup name with
      | none       => .ok name
      | some first => .error (.duplicateName ns.kind name first node) := by
  simp only [answer, claim]
  cases ns.claimed.lookup name <;> rfl

theorem run_append (ns : Namespace) (before after : List Call) :
    ns.run (before ++ after) =
      ((ns.run before).1 ++ ((ns.run before).2.run after).1, ((ns.run before).2.run after).2) := by
  induction before generalizing ns
  case nil               => rfl
  case cons call calls hi => simp only [List.cons_append, run, hi]

theorem given_cons (ns : Namespace) (call : Call) (calls : List Call) :
    ns.given (call :: calls) =
      ((ns.answer call).1.toOption.map (·, call.node)).toList ++
        (ns.answer call).2.given calls := by
  simp only [given, run, List.zip_cons_cons, List.filterMap_cons]
  cases (ns.answer call).1.toOption <;> rfl

-- A name that is given stays with the node of its call.
theorem lookup_run (ns : Namespace) (calls : List Call) (name : String) :
    (ns.run calls).2.claimed.lookup name =
      (ns.claimed.lookup name).or ((ns.given calls).lookup name) := by
  induction calls generalizing ns
  case nil => exact (Option.or_none ..).symm
  case cons call calls hi =>
    rw [run, hi, given_cons]
    obtain ⟨other, hn, ha⟩ | ⟨_, _, _, _, _, ha⟩ := ns.answer_cases call <;> rw [ha]
    case inr => rfl
    case inl =>
      have hn : ns.claimed.lookup other = none := by simpa [contains] using hn
      by_cases he : name = other
      case pos => subst he; simp [add, Except.toOption, hn]
      case neg =>
        have he : (name == other) = false := beq_eq_false_iff_ne.mpr he
        simp [add, Except.toOption, List.lookup_cons, he]

theorem kind_run (ns : Namespace) (calls : List Call) : (ns.run calls).2.kind = ns.kind := by
  induction calls generalizing ns
  case nil => rfl
  case cons call calls hi =>
    rw [run, hi]
    obtain ⟨_, _, ha⟩ | ⟨_, _, _, _, _, ha⟩ := ns.answer_cases call <;> rw [ha]
    rfl

theorem length_run (ns : Namespace) (calls : List Call) :
    (ns.run calls).1.length = calls.length := by
  induction calls generalizing ns
  case nil               => rfl
  case cons call calls hi => rw [run, List.length_cons, hi, List.length_cons]

theorem claims_run (ns : Namespace) (calls : List Call) :
    ns.Claims ((ns.given calls).map (·.1)) (ns.run calls).2 := by
  induction calls generalizing ns
  case nil => exact .nil ns
  case cons call calls hi =>
    rw [run, given_cons]
    obtain ⟨name, hn, ha⟩ | ⟨_, _, _, _, _, ha⟩ := ns.answer_cases call
    · simpa [ha, Except.toOption] using (hi _).cons hn
    · simpa [ha, Except.toOption] using hi ns

theorem getElem?_run (ns : Namespace) (before : List Call) (call : Call) (after : List Call) :
    (ns.run (before ++ call :: after)).1[before.length]? =
      some ((ns.run before).2.answer call).1 := by
  rw [run_append, ← ns.length_run before, List.getElem?_append_right (Nat.le_refl _), Nat.sub_self]
  rfl

-- Without a call that fails, the other answers and the namespace are the same.
theorem run_eraseIdx {i : Nat} {e : Error} (h : (ns.run calls).1[i]? = some (.error e)) :
    ns.run (calls.eraseIdx i) = ((ns.run calls).1.eraseIdx i, (ns.run calls).2) := by
  induction calls generalizing ns i
  case nil => cases h
  case cons call calls hi =>
    cases i
    case succ i =>
      have hi : (ns.answer call).2.run (calls.eraseIdx i) = _ := hi h
      simp only [List.eraseIdx_cons_succ, run, hi]
    case zero =>
      obtain ⟨_, _, ha⟩ | ⟨_, _, _, _, _, ha⟩ := ns.answer_cases call
      case inl => simp [run, ha] at h
      case inr => simp only [List.eraseIdx_cons_zero, run, ha]

-- How a namespace answers calls: each name is given once, it is held from then on, and whoever asks
-- for it is told of its holder, which changes nothing for others.
structure Guards (ns : Namespace) (calls : List Call) : Prop where
  nodup    : ((ns.given calls).map (·.1)).Nodup
  contains : ∀ name, (ns.run calls).2.contains name ↔ name ∈ (ns.given calls).map (·.1)
  claim    : ∀ before name node after, calls = before ++ .claim name node :: after →
    (ns.run calls).1[before.length]? = some (
      match (ns.given before).lookup name with
      | none       => .ok name
      | some first => .error (.duplicateName ns.kind name first node))
  failed   : ∀ i e, (ns.run calls).1[i]? = some (.error e) →
    ns.run (calls.eraseIdx i) = ((ns.run calls).1.eraseIdx i, (ns.run calls).2)

theorem guards_fresh (kind : NameKind) (calls : List Call) : Guards { kind } calls where
  nodup := (claims_run _ calls).free.left
  contains name := by
    rw [(claims_run _ calls).taken name]
    simp [Namespace.contains]
  claim before name node after he := by
    rw [he, getElem?_run, answer_claim, lookup_run, kind_run]
    rfl
  failed _ _ := run_eraseIdx

-- A name with a number is asked for after it was made up, and is refused; the numbers go on as if
-- it had not been asked for.
def petCalls : List Call := [
  .claimFree (.reserving []) "Pet" "Serializer" ⟨["paths", "/pets"]⟩,
  .claimFree (.reserving []) "Pet" "Serializer" ⟨["paths", "/cats"]⟩,
  .claim "Pet2Serializer" ⟨["definitions", "Pet2"]⟩,
  .claimFree (.reserving []) "Pet" "Serializer" ⟨["paths", "/dogs"]⟩
]

theorem guards_petCalls :
    (run { kind := .ofClass } petCalls).1.map (·.mapError Error.message) = [
      .ok "PetSerializer", .ok "Pet2Serializer",
      .error ("Duplicate class name 'Pet2Serializer' derived for #/paths/~1cats and " ++
        "#/definitions/Pet2"),
      .ok "Pet3Serializer"] ∧
    Guards { kind := .ofClass } petCalls :=
  ⟨by decide +kernel, guards_fresh _ _⟩

end ApiDescriptors.Namespace
