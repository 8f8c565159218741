import Mathlib.Data.List.Perm.Basic
import Mathlib.Data.List.Nodup
import Mathlib.Data.List.ReduceOption
import ScannerGen.Proofs.Token

/-!
# Identifiers and ids of settled tokens

Settling refuses declarations that share an identifier or an id, or that declare the id zero.  What
it accepts has identifiers and ids that are all different, also with the ids that it hands out.

* `firstRepeat?_eq_none_iff` — a list without a first repeat has different keys.
* `nodup_idents`, `isIdentifier_of_settled` — the identifiers of settled tokens.
* `nodup_ids`, `mem_ids_iff`, `le_length_of_mem_handedOut` — their ids: declared ones, and others that are
  at most the number of declarations.
-/

namespace ScannerGen

/-! ## Repeats -/

section Repeats

variable {α κ : Type} [BEq κ] {key : α → κ} {before xs : List α}

theorem mem_of_firstRepeat? {x y : α} (found : firstRepeat? key before xs = some (y, x)) : x ∈ xs := by
  induction xs generalizing before with
  | nil => cases found
  | cons z xs ih =>
    rw [firstRepeat?] at found
    split at found
    · cases found
      exact List.mem_cons_self
    · exact List.mem_cons_of_mem z (ih found)

theorem firstRepeat?_eq_none_iff [LawfulBEq κ] :
    firstRepeat? key before xs = none ↔
      (xs.map key).Nodup ∧ ∀ y ∈ before, ∀ x ∈ xs, key y ≠ key x := by
  induction xs generalizing before with
  | nil => simp [firstRepeat?]
  | cons x xs ih =>
    rw [firstRepeat?]
    split
    · next y found =>
      have same : key y = key x := by simpa using List.find?_some found
      refine iff_of_false nofun fun distinct => ?_
      exact distinct.2 y (List.mem_of_find?_eq_some found) x List.mem_cons_self same
    · next fresh =>
      simp only [List.find?_eq_none, beq_iff_eq] at fresh
      simp only [ih, List.map_cons, List.nodup_cons, List.mem_map, not_exists, not_and,
        List.forall_mem_append, List.forall_mem_singleton, List.forall_mem_cons]
      constructor
      · rintro ⟨nodup, apart, first⟩
        exact ⟨⟨fun z member same => first z member same.symm, nodup⟩,
          fun y member => ⟨fresh y member, apart y member⟩⟩
      · rintro ⟨⟨first, nodup⟩, apart⟩
        exact ⟨nodup, fun y member => (apart y member).2,
          fun z member same => first z member same.symm⟩

end Repeats

/-! ## Faults -/

/-- A map behind one that is given the places as well, and does not care for them. -/
theorem map_mapIdx_of_forall {α β γ : Type} {f : Nat → α → β} {g : β → γ} {h : α → γ}
    (same : ∀ i x, g (f i x) = h x) (xs : List α) : (xs.mapIdx f).map g = xs.map h := by
  rw [List.mapIdx_eq_zipIdx_map, List.map_map]
  conv_rhs => rw [← List.zipIdx_map_fst 0 xs, List.map_map]
  exact List.map_congr_left fun pair _ => same pair.2 pair.1

variable {ds : List Declaration}

theorem identifierFault?_eq_none_iff :
    identifierFault? ds = none ↔ (ds.map Declaration.resolvedIdent).Nodup := by
  have idents : (declarationRefs ds).map TokenRef.ident = ds.map Declaration.resolvedIdent := by
    refine map_mapIdx_of_forall ?_ ds
    exact fun _ _ => rfl
  rw [identifierFault?, Option.map_eq_none_iff, firstRepeat?_eq_none_iff, idents]
  simp

theorem map_fst_declaredIds (ds : List Declaration) :
    (declaredIds ds).map Prod.fst = ds.filterMap Declaration.id := by
  have ids := map_mapIdx_of_forall (g := Option.map Prod.fst) (h := Declaration.id)
    (f := fun index d => d.id.map fun id => (id, IdHolder.token (d.ref index)))
    (fun _ d => by simp [Function.comp_def]) ds
  calc (declaredIds ds).map Prod.fst
      = (List.map (Option.map Prod.fst) (ds.mapIdx fun index d =>
          d.id.map fun id => (id, IdHolder.token (d.ref index)))).reduceOption :=
        List.reduceOption_map.symm
    _ = (ds.map Declaration.id).reduceOption := by rw [ids]
    _ = ds.filterMap Declaration.id := List.filterMap_map

/-- A declared id is held by a token. -/
theorem exists_ref_of_mem_declaredIds {claim : Nat × IdHolder} (member : claim ∈ declaredIds ds) :
    ∃ ref, claim.2 = .token ref := by
  obtain ⟨_, indexed, rfl⟩ := List.mem_filterMap.1 member
  obtain ⟨i, inside, found⟩ := List.mem_mapIdx.1 indexed
  obtain ⟨id, _, rfl⟩ := Option.map_eq_some_iff.1 found
  exact ⟨_, rfl⟩

theorem idFault?_eq_none_iff : idFault? ds = none ↔ (0 :: ds.filterMap Declaration.id).Nodup := by
  have faultless : idFault? ds = none ↔
      firstRepeat? Prod.fst [(0, IdHolder.endOfInput)] (declaredIds ds) = none := by
    rw [idFault?]
    split
    · next found => simp [found]
    · next other =>
      refine iff_of_true rfl (Option.eq_none_iff_forall_not_mem.2 ?_)
      rintro ⟨⟨id, first⟩, id', holder⟩ found
      obtain ⟨ref, rfl⟩ := exists_ref_of_mem_declaredIds (mem_of_firstRepeat? found)
      exact other id first id' ref found
  have apart : (∀ y ∈ [(0, IdHolder.endOfInput)], ∀ x ∈ declaredIds ds, y.1 ≠ x.1) ↔
      0 ∉ (declaredIds ds).map Prod.fst := by
    rw [List.forall_mem_singleton, List.mem_map]
    exact ⟨fun differ ⟨x, member, zero⟩ => differ x member zero.symm,
      fun absent x member zero => absent ⟨x, member, zero.symm⟩⟩
  rw [faultless, firstRepeat?_eq_none_iff, apart, map_fst_declaredIds, List.nodup_cons, and_comm]

/-- A declaration without a fault of its own has a C identifier. -/
theorem isIdentifier_of_firstFault?_eq_none {index : Nat} {catchAll : Option TokenRef}
    (faultless : firstFault? index catchAll ds = none) :
    ∀ d ∈ ds, Ascii.isIdentifier d.resolvedIdent = true := by
  induction ds generalizing index catchAll with
  | nil => exact fun _ absent => absurd absent List.not_mem_nil
  | cons d ds ih =>
    rw [firstFault?] at faultless
    split at faultless
    · cases faultless
    · next sound =>
      refine List.forall_mem_cons.2 ⟨?_, ih faultless⟩
      cases identifier : Ascii.isIdentifier d.resolvedIdent with
      | true => rfl
      | false =>
        unfold Declaration.fault? at sound
        rw [if_pos identifier] at sound
        cases sound

/-! ## Free ids -/

theorem mem_freeIds {taken : List Nat} {count id : Nat} (member : id ∈ freeIds taken count) :
    0 < id ∧ id ∉ taken := by
  have kept := List.mem_filter.1 (List.mem_of_mem_take member)
  have bounds := List.mem_range'_1.1 kept.1
  exact ⟨by omega, by simpa using kept.2⟩

theorem nodup_freeIds (taken : List Nat) (count : Nat) : (freeIds taken count).Nodup :=
  ((List.nodup_range' ..).filter _).sublist (List.take_sublist _ _)

/-- All but as many different numbers as are taken are free. -/
theorem length_le_countP_free (taken : List Nat) {ids : List Nat} (distinct : ids.Nodup) :
    ids.length ≤ ids.countP (fun id => !taken.contains id) + taken.length := by
  have parts := List.length_eq_countP_add_countP (fun id => !taken.contains id) (l := ids)
  have used : ids.countP (fun id => ¬(!taken.contains id) = true) ≤ taken.length := by
    rw [List.countP_eq_length_filter]
    refine ((distinct.filter _).subperm fun id member => ?_).length_le
    simpa using (List.mem_filter.1 member).2
  omega

theorem length_freeIds (taken : List Nat) (count : Nat) : (freeIds taken count).length = count := by
  have enough := length_le_countP_free taken
    (List.nodup_range' (s := 1) (n := count + taken.length))
  rw [List.length_range'] at enough
  rw [freeIds, List.length_take, ← List.countP_eq_length_filter]
  omega

/-- The place of a kept element among the kept ones is the number of kept ones before it. -/
theorem exists_split_of_getElem?_filter {α : Type} {p : α → Bool} {xs : List α} {i : Nat} {x : α}
    (found : (xs.filter p)[i]? = some x) :
    ∃ front back, xs = front ++ x :: back ∧ front.countP p = i := by
  induction xs generalizing i with
  | nil => simp at found
  | cons y xs ih =>
    by_cases keeps : p y
    · rw [List.filter_cons_of_pos keeps] at found
      cases i with
      | zero =>
        cases found
        exact ⟨[], xs, rfl, rfl⟩
      | succ i =>
        obtain ⟨front, back, rfl, count⟩ := ih found
        exact ⟨y :: front, back, rfl, by rw [List.countP_cons_of_pos keeps, count]⟩
    · rw [List.filter_cons_of_neg keeps] at found
      obtain ⟨front, back, rfl, count⟩ := ih found
      exact ⟨y :: front, back, rfl, by rw [List.countP_cons_of_neg keeps, count]⟩

/-- A free id is passed over by ids that are taken or handed out before it. -/
theorem getElem?_freeIds_le {taken : List Nat} {count i id : Nat}
    (found : (freeIds taken count)[i]? = some id) : id ≤ i + 1 + taken.length := by
  rw [freeIds, List.getElem?_take] at found
  split at found
  · obtain ⟨front, back, parts, before⟩ := exists_split_of_getElem?_filter found
    have distinct : front.Nodup :=
      (List.nodup_range' (s := 1) (n := count + taken.length)).sublist
        (parts ▸ List.sublist_append_left front _)
    have place : (List.range' 1 (count + taken.length))[front.length]? = some id := by
      rw [parts, List.getElem?_append_right (Nat.le_refl _), Nat.sub_self, List.getElem?_cons_zero]
    obtain ⟨inside, value⟩ := List.getElem?_eq_some_iff.1 place
    rw [List.getElem_range'] at value
    have passed := length_le_countP_free taken distinct
    omega
  · cases found

/-! ## Assigned ids -/

/-- The ids of a list of declarations are the declared ones and as many of the free ones as there are
declarations without an id. -/
theorem perm_assignIds (ds : List Declaration) (free : List Nat)
    (enough : ds.countP (·.id.isNone) ≤ free.length) :
    (assignIds ds free).Perm (ds.filterMap Declaration.id ++ free.take (ds.countP (·.id.isNone))) := by
  induction ds generalizing free with
  | nil => exact .refl _
  | cons d ds ih =>
    cases declared : d.id with
    | some id =>
      rw [List.countP_cons_of_neg (by simp [declared])] at enough ⊢
      have assigned : assignIds (d :: ds) free = id :: assignIds ds free := by
        simp only [assignIds, declared]
      rw [assigned, List.filterMap_cons_some declared]
      exact (ih free enough).cons id
    | none =>
      rw [List.countP_cons_of_pos (by simp [declared])] at enough ⊢
      cases free with
      | nil => simp at enough
      | cons id free =>
        have assigned : assignIds (d :: ds) (id :: free) = id :: assignIds ds free := by
          simp only [assignIds, declared]
        rw [assigned, List.filterMap_cons_none declared, List.take_succ_cons]
        exact ((ih free (Nat.le_of_succ_le_succ enough)).cons id).trans List.perm_middle.symm

/-- The ids that are handed out. -/
def handedOut (ds : List Declaration) : List Nat :=
  (freeIds (ds.filterMap Declaration.id) ds.length).take (ds.countP (·.id.isNone))

theorem perm_settledIds (ds : List Declaration) :
    (settledIds ds).Perm (ds.filterMap Declaration.id ++ handedOut ds) := by
  refine perm_assignIds ds _ ?_
  rw [length_freeIds]
  exact List.countP_le_length

theorem nodup_settledIds (faultless : idFault? ds = none) : (0 :: settledIds ds).Nodup := by
  obtain ⟨positive, declared⟩ := List.nodup_cons.1 (idFault?_eq_none_iff.1 faultless)
  have free : ∀ id ∈ handedOut ds, 0 < id ∧ id ∉ ds.filterMap Declaration.id := fun id member =>
    mem_freeIds (List.mem_of_mem_take member)
  rw [((perm_settledIds ds).cons 0).nodup_iff, List.nodup_cons, List.mem_append]
  refine ⟨?_, List.Nodup.append declared ?_ fun id among member => (free id member).2 among⟩
  · rintro (among | among)
    · exact positive among
    · exact absurd (free 0 among).1 (Nat.lt_irrefl 0)
  · exact (nodup_freeIds _ _).sublist (List.take_sublist _ _)

theorem le_length_of_mem_handedOut {id : Nat} (member : id ∈ handedOut ds) : id ≤ ds.length := by
  obtain ⟨i, found⟩ := List.mem_iff_getElem?.1 member
  rw [handedOut, List.getElem?_take] at found
  split at found
  · next before =>
    have parts : ds.countP (·.id.isNone) + (ds.filterMap Declaration.id).length = ds.length := by
      rw [List.length_filterMap_eq_countP, List.length_eq_countP_add_countP (·.id.isNone) (l := ds)]
      refine congrArg _ (List.countP_congr fun d _ => ?_)
      cases d.id <;> simp
    have bound := getElem?_freeIds_le found
    omega
  · cases found

/-! ## Settled tokens -/

namespace TokenTable

variable {tokens : TokenTable}

theorem map_ident_of_settled (settled : settle ds = .ok tokens) :
    tokens.tokens.map Token.ident = ds.map Declaration.resolvedIdent := by
  obtain ⟨_, _, _, _, rfl⟩ := settle_eq_ok_iff.1 settled
  have lengths : ds.length ≤ (settledIds ds).length := Nat.le_of_eq (length_assignIds ds _).symm
  conv_rhs => rw [← List.map_fst_zip lengths, List.map_map]
  refine map_mapIdx_of_forall ?_ _
  exact fun _ _ => rfl

theorem map_id_of_settled (settled : settle ds = .ok tokens) :
    tokens.tokens.map Token.id = settledIds ds := by
  obtain ⟨_, _, _, _, rfl⟩ := settle_eq_ok_iff.1 settled
  have lengths : (settledIds ds).length ≤ ds.length := Nat.le_of_eq (length_assignIds ds _)
  conv_rhs => rw [← List.map_snd_zip lengths]
  refine map_mapIdx_of_forall ?_ _
  exact fun _ _ => rfl

theorem nodup_idents (settled : settle ds = .ok tokens) : (tokens.tokens.map Token.ident).Nodup := by
  rw [map_ident_of_settled settled]
  exact identifierFault?_eq_none_iff.1 (settle_eq_ok_iff.1 settled).2.2.1

theorem isIdentifier_of_settled (settled : settle ds = .ok tokens) {t : Token}
    (member : t ∈ tokens.tokens) : Ascii.isIdentifier t.ident = true := by
  have among := List.mem_map_of_mem member (f := Token.ident)
  rw [map_ident_of_settled settled, List.mem_map] at among
  obtain ⟨d, declared, same⟩ := among
  rw [← same]
  exact isIdentifier_of_firstFault?_eq_none (settle_eq_ok_iff.1 settled).2.1 d declared

/-- No two tokens have one id, and none has that of the end of input. -/
theorem nodup_ids (settled : settle ds = .ok tokens) : (0 :: tokens.tokens.map Token.id).Nodup := by
  rw [map_id_of_settled settled]
  exact nodup_settledIds (settle_eq_ok_iff.1 settled).2.2.2.1

/-- The ids of the tokens are those that are declared and some small ones. -/
theorem mem_ids_iff (settled : settle ds = .ok tokens) {id : Nat} :
    id ∈ tokens.tokens.map Token.id ↔ id ∈ ds.filterMap Declaration.id ∨ id ∈ handedOut ds := by
  rw [map_id_of_settled settled, (perm_settledIds ds).mem_iff, List.mem_append]

end TokenTable

end ScannerGen
