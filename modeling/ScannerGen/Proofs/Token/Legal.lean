import ScannerGen.Proofs.Text.Identifier
import ScannerGen.Proofs.Token.Distinct

/-!
# Legal declarations

Settling is carried out in passes: over single declarations, over their identifiers and over their ids,
each of which ends at its first fault.  This module says what all of them come to.

* `Legal` — what a list of declarations has to satisfy.
* `TokenError.Blames` — the condition that an error says is violated, at the declarations that it names.
* `Token.Carries` — a token has what its declaration says.
* `settle_eq_ok_iff_legal` — the lists that are settled are the legal ones, their tokens carry the
  declarations, and every other list is refused with an error that is to blame.
-/

namespace ScannerGen

/-! ## Conditions -/

/-- What a list of declarations has to satisfy to be settled. -/
structure Legal (ds : List Declaration) : Prop where
  nonempty : ds ≠ []
  identifiers : ∀ d ∈ ds, IsCIdentifier d.resolvedIdent
  unknowns : ∀ d ∈ ds, d.pattern = none → d.category = .unknown
  oneCatchAll : ds.Pairwise fun d e => d.pattern ≠ none ∨ e.pattern ≠ none
  actions : ∀ d ∈ ds, ¬ (d.ignored = true ∧ d.action ≠ none)
  distinctIdentifiers : (ds.map Declaration.resolvedIdent).Nodup
  positiveIds : 0 ∉ ds.filterMap Declaration.id
  distinctIds : (ds.filterMap Declaration.id).Nodup

/-- Two declarations of a list, the earlier one first. -/
structure InOrder (ds : List Declaration) (i j : Nat) (d e : Declaration) : Prop where
  before : i < j
  first : ds[i]? = some d
  second : ds[j]? = some e

/-- An error names declarations at which a condition is violated. -/
inductive TokenError.Blames (ds : List Declaration) : TokenError → Prop
  | noTokens (empty : ds = []) : Blames ds .noTokens
  | badIdentifier {d : Declaration} (member : d ∈ ds) (bad : ¬ IsCIdentifier d.resolvedIdent) :
    Blames ds (.badIdentifier d.resolvedIdent d.origin)
  | patternRequired {i : Nat} {d : Declaration} (found : ds[i]? = some d) (missing : d.pattern = none)
    (known : d.category ≠ .unknown) : Blames ds (.patternRequired (d.ref i))
  | secondCatchAll {i j : Nat} {d e : Declaration} (order : InOrder ds i j d e)
    (first : d.pattern = none) (second : e.pattern = none) :
    Blames ds (.secondCatchAll (d.ref i) (e.ref j))
  | ignoredWithAction {d : Declaration} (member : d ∈ ds) (ignored : d.ignored = true)
    (action : d.action ≠ none) : Blames ds (.ignoredWithAction d.resolvedIdent d.origin)
  | duplicateIdentifier {i j : Nat} {d e : Declaration} (order : InOrder ds i j d e)
    (same : d.resolvedIdent = e.resolvedIdent) :
    Blames ds (.duplicateIdentifier e.resolvedIdent (d.ref i) (e.ref j))
  | reservedId {j : Nat} {e : Declaration} (found : ds[j]? = some e) (zero : e.id = some 0) :
    Blames ds (.duplicateId 0 .endOfInput (e.ref j))
  | duplicateId {i j id : Nat} {d e : Declaration} (order : InOrder ds i j d e) (first : d.id = some id)
    (second : e.id = some id) : Blames ds (.duplicateId id (.token (d.ref i)) (e.ref j))

/-- A token has what its declaration says, the place of the declaration among `total` ones, and a rank
behind all others if it is the catch-all. -/
structure Token.Carries (t : Token) (d : Declaration) (index total : Nat) : Prop where
  index_eq : t.index = index
  priority_eq : t.priority = if d.pattern = none then total else index
  pattern_eq : t.pattern = d.pattern
  category_eq : t.category = d.category
  ident_eq : t.ident = d.resolvedIdent
  id_eq : ∀ id, d.id = some id → t.id = id
  action_eq : t.action = d.action
  ignored_eq : t.ignored = d.ignored
  origin_eq : t.origin = d.origin

variable {ds : List Declaration}

/-! ## What is to blame is not legal -/

theorem InOrder.pair {i j : Nat} {d e : Declaration} (order : InOrder ds i j d e)
    {R : Declaration → Declaration → Prop} (pairwise : ds.Pairwise R) : R d e := by
  obtain ⟨insideI, rfl⟩ := List.getElem?_eq_some_iff.1 order.first
  obtain ⟨insideJ, rfl⟩ := List.getElem?_eq_some_iff.1 order.second
  exact List.pairwise_iff_getElem.1 pairwise i j insideI insideJ order.before

theorem TokenError.Blames.not_legal {e : TokenError} (blames : e.Blames ds) : ¬ Legal ds := by
  intro legal
  cases blames with
  | noTokens empty => exact legal.nonempty empty
  | badIdentifier member bad => exact bad (legal.identifiers _ member)
  | patternRequired found missing known =>
    exact known (legal.unknowns _ (List.mem_of_getElem? found) missing)
  | secondCatchAll order first second =>
    exact (order.pair legal.oneCatchAll).elim (absurd first) (absurd second)
  | ignoredWithAction member ignored action => exact legal.actions _ member ⟨ignored, action⟩
  | duplicateIdentifier order same =>
    exact order.pair (List.pairwise_map.1 legal.distinctIdentifiers) same
  | reservedId found zero =>
    exact legal.positiveIds (List.mem_filterMap.2 ⟨_, List.mem_of_getElem? found, zero⟩)
  | duplicateId order first second =>
    exact order.pair (List.pairwise_filterMap.1 legal.distinctIds) _ first _ second rfl

/-! ## Single declarations -/

/-- The catch-all that has been seen is one of the declarations in front. -/
def SeenIn (front : List Declaration) (catchAll : Option TokenRef) : Prop :=
  ∀ ref ∈ catchAll, ∃ (i : Nat) (d : Declaration), front[i]? = some d ∧ d.pattern = none ∧ ref = d.ref i

theorem SeenIn.append {front : List Declaration} {catchAll : Option TokenRef}
    (seen : SeenIn front catchAll) (d : Declaration) :
    SeenIn (front ++ [d]) (if d.pattern.isNone then some (d.ref front.length) else catchAll) := by
  intro ref member
  split at member
  · next missing =>
    obtain rfl := Option.mem_some.1 member
    exact ⟨front.length, d, List.getElem?_concat_length, Option.isNone_iff_eq_none.1 missing, rfl⟩
  · obtain ⟨i, e, found, missing, same⟩ := seen ref member
    have inside := (List.getElem?_eq_some_iff.1 found).1
    exact ⟨i, e, by rw [List.getElem?_append_left inside, found], missing, same⟩

/-- The faults of a declaration, in the order in which they are looked for. -/
theorem fault?_eq (d : Declaration) (index : Nat) (catchAll : Option TokenRef) :
    d.fault? index catchAll =
      if Ascii.isIdentifier d.resolvedIdent = false then some (.badIdentifier d.resolvedIdent d.origin)
      else if d.pattern = none ∧ d.category ≠ .unknown then some (.patternRequired (d.ref index))
      else if d.pattern = none ∧ catchAll.isSome then
        catchAll.map fun first => .secondCatchAll first (d.ref index)
      else if d.ignored = true ∧ d.action ≠ none then some (.ignoredWithAction d.resolvedIdent d.origin)
      else none := by
  unfold Declaration.fault?
  cases d.pattern <;> cases catchAll <;> cases d.action <;> simp

/-- The fault of a declaration is one of the conditions on single declarations. -/
theorem blames_of_fault? {front rest : List Declaration} {d : Declaration} {catchAll : Option TokenRef}
    {e : TokenError} (seen : SeenIn front catchAll)
    (faulty : d.fault? front.length catchAll = some e) : e.Blames (front ++ d :: rest) := by
  have member : d ∈ front ++ d :: rest := by simp
  have found : (front ++ d :: rest)[front.length]? = some d := by simp
  rw [fault?_eq] at faulty
  split at faulty
  · next bad =>
    obtain rfl := Option.some.inj faulty
    refine .badIdentifier member fun identifier => ?_
    rw [isCIdentifier_iff.1 identifier] at bad
    cases bad
  · split at faulty
    · next required =>
      obtain rfl := Option.some.inj faulty
      exact .patternRequired found required.1 required.2
    · split at faulty
      · next second =>
        obtain ⟨earlier, given, rfl⟩ := Option.map_eq_some_iff.1 faulty
        obtain ⟨i, first, foundFirst, firstMissing, rfl⟩ := seen earlier given
        have inside := (List.getElem?_eq_some_iff.1 foundFirst).1
        have order : InOrder (front ++ d :: rest) i front.length first d :=
          ⟨inside, by rw [List.getElem?_append_left inside, foundFirst], found⟩
        exact .secondCatchAll order firstMissing second.1
      · split at faulty
        · next both =>
          obtain rfl := Option.some.inj faulty
          exact .ignoredWithAction member both.1 both.2
        · cases faulty

theorem blames_of_firstFault? {front rest : List Declaration} {catchAll : Option TokenRef}
    {e : TokenError} (seen : SeenIn front catchAll)
    (faulty : firstFault? front.length catchAll rest = some e) : e.Blames (front ++ rest) := by
  induction rest generalizing front catchAll with
  | nil => cases faulty
  | cons d rest ih =>
    rw [firstFault?] at faulty
    split at faulty
    · next fault first =>
      obtain rfl := Option.some.inj faulty
      exact blames_of_fault? seen first
    · -- What is in front grows by the declaration that has been checked.
      have shifted := @ih (front ++ [d]) _ (seen.append d)
      rw [List.length_append, List.length_singleton, List.append_assoc, List.singleton_append] at shifted
      exact shifted faulty

/-- Without a first fault no declaration has one, whatever catch-all comes before it. -/
theorem exists_fault?_eq_none {index : Nat} {catchAll : Option TokenRef}
    (faultless : firstFault? index catchAll ds = none) :
    ∀ d ∈ ds, ∃ i earlier, d.fault? i earlier = none := by
  induction ds generalizing index catchAll with
  | nil => exact fun _ absent => absurd absent List.not_mem_nil
  | cons d ds ih =>
    rw [firstFault?] at faultless
    split at faultless
    · cases faultless
    · next sound => exact List.forall_mem_cons.2 ⟨⟨_, _, sound⟩, ih faultless⟩

/-- What a declaration without a fault satisfies by itself. -/
theorem sound_of_fault?_eq_none {d : Declaration} {index : Nat} {catchAll : Option TokenRef}
    (sound : d.fault? index catchAll = none) :
    IsCIdentifier d.resolvedIdent ∧ (d.pattern = none → d.category = .unknown) ∧
      ¬ (d.ignored = true ∧ d.action ≠ none) := by
  rw [fault?_eq] at sound
  split at sound
  · cases sound
  · next identifier =>
    split at sound
    · cases sound
    · next allowed =>
      split at sound
      · next second =>
        -- The catch-all before it makes this a fault.
        rw [Option.map_eq_none_iff.1 sound] at second
        cases second.2
      · split at sound
        · cases sound
        · next single =>
          refine ⟨isCIdentifier_iff.2 (Bool.eq_true_of_not_eq_false identifier), fun missing => ?_, single⟩
          exact Decidable.not_not.1 fun known => allowed ⟨missing, known⟩

/-! ## Repeats -/

section Repeats

variable {α κ : Type} [BEq κ] [LawfulBEq κ] {key : α → κ} {before xs : List α} {x y : α}

/-- A repeat is found behind the element that it repeats. -/
theorem sublist_of_firstRepeat? (found : firstRepeat? key before xs = some (y, x)) :
    [y, x].Sublist (before ++ xs) ∧ key y = key x := by
  induction xs generalizing before with
  | nil => cases found
  | cons z xs ih =>
    rw [firstRepeat?] at found
    split at found
    · next earlier among =>
      cases found
      have member : [y].Sublist before := List.singleton_sublist.2 (List.mem_of_find?_eq_some among)
      exact ⟨member.append (.cons_cons x (List.nil_sublist xs)), by simpa using List.find?_some among⟩
    · obtain ⟨sublist, same⟩ := ih found
      rw [List.append_assoc, List.singleton_append] at sublist
      exact ⟨sublist, same⟩

end Repeats

theorem pairwise_mapIdx {α : Type} (f : Nat → Declaration → α) :
    (ds.mapIdx f).Pairwise fun a b => ∃ i j d e, InOrder ds i j d e ∧ a = f i d ∧ b = f j e := by
  rw [List.pairwise_iff_getElem]
  intro i j insideI insideJ before
  rw [List.length_mapIdx] at insideI insideJ
  exact ⟨i, j, ds[i], ds[j],
    ⟨before, List.getElem?_eq_getElem insideI, List.getElem?_eq_getElem insideJ⟩,
    List.getElem_mapIdx, List.getElem_mapIdx⟩

theorem blames_of_identifierFault? {e : TokenError} (faulty : identifierFault? ds = some e) :
    e.Blames ds := by
  rw [identifierFault?, Option.map_eq_some_iff] at faulty
  obtain ⟨⟨first, second⟩, found, rfl⟩ := faulty
  obtain ⟨sublist, same⟩ := sublist_of_firstRepeat? found
  obtain ⟨i, j, d, d', order, rfl, rfl⟩ :=
    List.pairwise_iff_forall_sublist.1 (pairwise_mapIdx fun index d => d.ref index) sublist
  exact .duplicateIdentifier order same

/-- Two claims of ids are those of two declarations, in their order. -/
theorem pairwise_declaredIds (ds : List Declaration) :
    (declaredIds ds).Pairwise fun a b => ∃ i j d e, InOrder ds i j d e ∧
      d.id = some a.1 ∧ a.2 = .token (d.ref i) ∧ e.id = some b.1 ∧ b.2 = .token (e.ref j) := by
  rw [declaredIds, List.pairwise_filterMap]
  refine (pairwise_mapIdx _).imp ?_
  rintro _ _ ⟨i, j, d, e, order, rfl, rfl⟩ a claimed b claimed'
  obtain ⟨id, declared, rfl⟩ := Option.map_eq_some_iff.1 claimed
  obtain ⟨id', declared', rfl⟩ := Option.map_eq_some_iff.1 claimed'
  exact ⟨i, j, d, e, order, declared, rfl, declared', rfl⟩

theorem exists_of_mem_declaredIds {claim : Nat × IdHolder} (member : claim ∈ declaredIds ds) :
    ∃ (j : Nat) (e : Declaration), ds[j]? = some e ∧ e.id = some claim.1 ∧
      claim.2 = .token (e.ref j) := by
  obtain ⟨_, indexed, rfl⟩ := List.mem_filterMap.1 member
  obtain ⟨j, inside, found⟩ := List.mem_mapIdx.1 indexed
  obtain ⟨id, declared, rfl⟩ := Option.map_eq_some_iff.1 found
  exact ⟨j, ds[j], List.getElem?_eq_getElem inside, declared, rfl⟩

theorem blames_of_idFault? {e : TokenError} (faulty : idFault? ds = some e) : e.Blames ds := by
  rw [idFault?] at faulty
  split at faulty
  · next id first id' second found =>
    obtain rfl := Option.some.inj faulty
    obtain ⟨sublist, same⟩ := sublist_of_firstRepeat? found
    obtain rfl : id = id' := same
    rw [List.singleton_append] at sublist
    cases sublist with
    | cons_cons _ sublist =>
      -- The id is that of the end of input.
      have member := List.singleton_sublist.1 sublist
      obtain ⟨j, e, placed, zero, holder⟩ := exists_of_mem_declaredIds member
      obtain rfl := IdHolder.token.inj holder
      exact .reservedId placed zero
    | cons _ sublist =>
      obtain ⟨i, j, d, d', order, declared, holder, declared', holder'⟩ :=
        List.pairwise_iff_forall_sublist.1 (pairwise_declaredIds ds) sublist
      obtain rfl : first = _ := holder
      obtain rfl := IdHolder.token.inj holder'
      exact .duplicateId order declared declared'
  · cases faulty

/-! ## Settling -/

/-- Every error is to blame. -/
theorem blames_of_settle {e : TokenError} (refused : settle ds = .error e) : e.Blames ds := by
  rw [settle] at refused
  split at refused
  · next empty =>
    obtain rfl := Except.error.inj refused
    exact .noTokens empty
  · split at refused
    · next fault faulty =>
      obtain rfl := Except.error.inj refused
      have unseen : SeenIn [] none := by
        intro ref member
        cases member
      exact blames_of_firstFault? unseen faulty
    · split at refused
      · next fault faulty =>
        obtain rfl := Except.error.inj refused
        exact blames_of_identifierFault? faulty
      · split at refused
        · next fault faulty =>
          obtain rfl := Except.error.inj refused
          exact blames_of_idFault? faulty
        · cases refused

theorem legal_of_settled {tokens : TokenTable} (settled : settle ds = .ok tokens) : Legal ds := by
  obtain ⟨nonempty, faultless, distinct, free, _⟩ := TokenTable.settle_eq_ok_iff.1 settled
  have each : ∀ d ∈ ds, _ := fun d member =>
    (exists_fault?_eq_none faultless d member).elim fun _ rest => rest.elim fun _ sound =>
      sound_of_fault?_eq_none sound
  obtain ⟨positive, distinctIds⟩ := List.nodup_cons.1 (idFault?_eq_none_iff.1 free)
  exact {
    nonempty
    identifiers := fun d member => (each d member).1
    unknowns := fun d member => (each d member).2.1
    oneCatchAll := (pairwise_of_firstFault?_eq_none faultless).1.imp fun {d e} either =>
      either.imp Option.isSome_iff_ne_none.1 Option.isSome_iff_ne_none.1
    actions := fun d member => (each d member).2.2
    distinctIdentifiers := identifierFault?_eq_none_iff.1 distinct
    positiveIds := positive
    distinctIds }

/-- A declared id is the one that is assigned. -/
theorem getElem?_assignIds_of_declared {i id : Nat} {d : Declaration} (found : ds[i]? = some d)
    (declared : d.id = some id) (free : List Nat) : (assignIds ds free)[i]? = some id := by
  induction ds generalizing i free with
  | nil => cases found
  | cons e ds ih =>
    rw [assignIds.eq_def]
    cases i with
    | zero =>
      obtain rfl : e = d := by simpa using found
      simp only [declared, List.getElem?_cons_zero]
    | succ i =>
      rw [List.getElem?_cons_succ] at found
      simp only
      split <;> exact ih found _

/-- The tokens of a list are its declarations, settled. -/
theorem carries_of_settled {tokens : TokenTable} (settled : settle ds = .ok tokens) {i : Nat}
    {d : Declaration} (found : ds[i]? = some d) :
    ∃ t, tokens.get? i = some t ∧ t.Carries d i ds.length := by
  have inside := (List.getElem?_eq_some_iff.1 found).1
  have assigned : i < (settledIds ds).length := by
    rw [settledIds, length_assignIds]
    exact inside
  obtain ⟨id, given⟩ : ∃ id, (settledIds ds)[i]? = some id := ⟨_, List.getElem?_eq_getElem assigned⟩
  have pair : (ds.zip (settledIds ds))[i]? = some (d, id) := List.getElem?_zip_eq_some.2 ⟨found, given⟩
  refine ⟨d.settle i ds.length id, ?_, rfl, ?_, rfl, rfl, rfl, ?_, rfl, rfl, rfl⟩
  · rw [(TokenTable.settled_spec settled).2 i, pair]
    rfl
  · show (if d.pattern.isNone then ds.length else i) = _
    simp only [Option.isNone_iff_eq_none]
  · intro id' declared
    rw [settledIds, getElem?_assignIds_of_declared found declared] at given
    exact (Option.some.inj given).symm

theorem length_of_settled {tokens : TokenTable} (settled : settle ds = .ok tokens) :
    tokens.size = ds.length := by
  have idents := congrArg List.length (TokenTable.map_ident_of_settled settled)
  rwa [List.length_map, List.length_map] at idents

/-- The lists of declarations that are settled are the legal ones.  There is one token for each
declaration, which carries it; and the error of a list that is refused names declarations at which a
condition is violated. -/
theorem settle_eq_ok_iff_legal (ds : List Declaration) :
    ((∃ tokens, settle ds = .ok tokens) ↔ Legal ds) ∧
    match settle ds with
    | .ok tokens => tokens.size = ds.length ∧
        ∀ (i : Nat) (d : Declaration), ds[i]? = some d →
          ∃ t, tokens.get? i = some t ∧ t.Carries d i ds.length
    | .error e => e.Blames ds := by
  constructor
  · constructor
    · rintro ⟨tokens, settled⟩
      exact legal_of_settled settled
    · intro legal
      cases outcome : settle ds with
      | ok tokens => exact ⟨tokens, rfl⟩
      | error e => exact absurd legal (blames_of_settle outcome).not_legal
  · cases outcome : settle ds with
    | ok tokens => exact ⟨length_of_settled outcome, fun i d found => carries_of_settled outcome found⟩
    | error e => exact blames_of_settle outcome

end ScannerGen
