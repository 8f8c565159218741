import ScannerGen.Json.Record

/-!
# What readers give

A reader that succeeds has read every part: what holds of every element that is read holds of a list
(`forall_mem_of_listOf`), and what every field of a record keeps holds of the record (`Shape.Keeps.read`).
-/

namespace ScannerGen

/-! ## Success -/

theorem exists_of_bind_eq_ok {ε α β : Type} {x : Except ε α} {f : α → Except ε β} {b : β}
    (succeeded : (x >>= f) = .ok b) : ∃ a, x = .ok a ∧ f a = .ok b := by
  cases x with
  | error e => cases succeeded
  | ok a => exact ⟨a, rfl, succeeded⟩

theorem exists_of_map_eq_ok {ε α β : Type} {x : Except ε α} {f : α → β} {b : β}
    (succeeded : x.map f = .ok b) : ∃ a, x = .ok a ∧ f a = b := by
  cases x with
  | error e => cases succeeded
  | ok a => exact ⟨a, rfl, Except.ok.inj succeeded⟩

theorem eq_ok_of_mapError {ε ε' α : Type} {x : Except ε α} {f : ε → ε'} {a : α}
    (succeeded : x.mapError f = .ok a) : x = .ok a := by
  cases x with
  | error e => cases succeeded
  | ok b => exact congrArg Except.ok (Except.ok.inj succeeded)

namespace Json

/-! ## Numbers and lists -/

theorem le_of_natural {type : String} {limit n : Nat} {text rest : List UInt8}
    (read : natural type limit text = .ok (n, rest)) : n ≤ limit := by
  simp only [natural] at read
  split at read
  · cases read
  · split at read
    · obtain ⟨⟨number, more⟩, _, given⟩ := exists_of_bind_eq_ok read
      cases number with
      | natural value =>
        by_cases bound : value ≤ limit
        · simp only [if_pos bound] at given
          cases given
          exact bound
        · simp only [if_neg bound] at given
          cases given
      | negative _ => cases given
      | float _ _ => cases given
    · cases read

variable {α : Type} {p : α → Prop}

theorem forall_mem_of_elements {item : Reader α}
    (each : ∀ text value rest, item text = .ok (value, rest) → p value) {fuel : Nat} {first : Bool}
    {text rest : List UInt8} {values : List α}
    (read : elements item fuel first text = .ok (values, rest)) : ∀ value ∈ values, p value := by
  induction fuel generalizing first text values with
  | zero =>
    cases read
    exact fun _ absent => absurd absent List.not_mem_nil
  | succ fuel ih =>
    rw [elements] at read
    obtain ⟨next, _, read⟩ := exists_of_bind_eq_ok read
    cases next with
    | none =>
      cases read
      exact fun _ absent => absurd absent List.not_mem_nil
    | some start =>
      obtain ⟨⟨value, more⟩, given, read⟩ := exists_of_bind_eq_ok read
      obtain ⟨⟨others, last⟩, following, read⟩ := exists_of_bind_eq_ok read
      cases read
      exact List.forall_mem_cons.2 ⟨each start value more given, ih following⟩

theorem forall_mem_of_listOf {item : Nat → Reader α}
    (each : ∀ remaining text value rest, item remaining text = .ok (value, rest) → p value)
    {remaining : Nat} {text rest : List UInt8} {values : List α}
    (read : listOf remaining item text = .ok (values, rest)) : ∀ value ∈ values, p value := by
  simp only [listOf, entered] at read
  split at read
  · cases read
  · split at read
    · split at read
      · cases read
      · obtain ⟨⟨values', more⟩, given, read⟩ := exists_of_bind_eq_ok read
        obtain ⟨_, _, read⟩ := exists_of_bind_eq_ok read
        cases read
        exact forall_mem_of_elements (each _) given
    · cases read

/-! ## Records -/

namespace Shape

variable {σ : Type} {shape : Shape σ} {p : σ → Prop}

/-- Reading any field of a record keeps a property of its state. -/
def Keeps (shape : Shape σ) (p : σ → Prop) : Prop :=
  ∀ field ∈ shape.fields, ∀ remaining state text state' rest, p state →
    field.read remaining state text = .ok (state', rest) → p state'

theorem close_eq_ok {towards : List UInt8 → List UInt8}
    {ending : List UInt8 → Except Located (List UInt8)}
    {content : Except Interruption (α × List UInt8)} {value : α} {rest : List UInt8}
    (closed : close towards ending content = .ok (value, rest)) :
    ∃ more, content = .ok (value, more) := by
  cases content with
  | ok content =>
    obtain ⟨_, more⟩ := content
    obtain ⟨_, _, same⟩ := exists_of_map_eq_ok closed
    cases same
    exact ⟨more, rfl⟩
  | error e => cases e <;> cases closed

theorem Keeps.objectFields (keeps : shape.Keeps p) {remaining fuel : Nat} {first : Bool}
    {seen : List String} {state state' : σ} {text rest : List UInt8} (before : p state)
    (read : shape.objectFields remaining fuel first seen state text = .ok (state', rest)) :
    p state' := by
  induction fuel generalizing first seen state text with
  | zero =>
    cases read
    exact before
  | succ fuel ih =>
    rw [Shape.objectFields] at read
    obtain ⟨next, _, read⟩ := exists_of_bind_eq_ok read
    cases next with
    | none =>
      simp only at read
      split at read
      · cases read
      · cases read
        exact before
    | some start =>
      obtain ⟨⟨key, more⟩, _, read⟩ := exists_of_bind_eq_ok read
      simp only at read
      split at read
      · -- A field of another name leaves the state as it is.
        split at read
        · obtain ⟨_, _, read⟩ := exists_of_bind_eq_ok read
          exact ih before read
        · cases read
      · next field found =>
        split at read
        · cases read
        · obtain ⟨⟨between, last⟩, given, read⟩ := exists_of_bind_eq_ok read
          obtain ⟨value, _, given⟩ := exists_of_bind_eq_ok (eq_ok_of_mapError given)
          exact ih (keeps field (List.mem_of_find?_eq_some found) _ _ _ _ _ before given) read

theorem Keeps.listFields (keeps : shape.Keeps p) {remaining : Nat} {fields : List (Field σ)}
    (listed : fields ⊆ shape.fields) {position : Nat} {state state' : σ} {text rest : List UInt8}
    (before : p state)
    (read : shape.listFields remaining fields position state text = .ok (state', rest)) :
    p state' := by
  induction fields generalizing position state text with
  | nil =>
    cases read
    exact before
  | cons field fields ih =>
    rw [Shape.listFields] at read
    obtain ⟨next, _, read⟩ := exists_of_bind_eq_ok read
    have others : fields ⊆ shape.fields := fun _ member => listed (List.mem_cons_of_mem _ member)
    cases next with
    | none =>
      simp only at read
      split at read
      · exact ih others before read
      · cases read
    | some start =>
      obtain ⟨⟨between, last⟩, given, read⟩ := exists_of_bind_eq_ok read
      exact ih others
        (keeps field (listed List.mem_cons_self) _ _ _ _ _ before (eq_ok_of_mapError given)) read

/-- What every field keeps holds of the whole record, in either of its forms. -/
theorem Keeps.read (keeps : shape.Keeps p) {initial final : σ} {remaining : Nat}
    {text rest : List UInt8} (before : p initial)
    (read : shape.read initial remaining text = .ok (final, rest)) : p final := by
  simp only [Shape.read, entered] at read
  split at read
  · cases read
  · split at read
    · split at read
      · cases read
      · obtain ⟨_, content⟩ := close_eq_ok read
        exact keeps.listFields (fun _ member => member) before content
    · split at read
      · split at read
        · cases read
        · obtain ⟨_, content⟩ := close_eq_ok read
          exact keeps.objectFields before content
      · cases read

end Shape

/-! ## Documents -/

theorem exists_of_document {read : Reader α} {text : List UInt8} {value : α}
    (accepted : document read text = .ok value) : ∃ rest, read text = .ok (value, rest) := by
  obtain ⟨⟨value', rest⟩, given, ended⟩ := exists_of_bind_eq_ok (eq_ok_of_mapError accepted)
  refine ⟨rest, ?_⟩
  simp only at ended
  split at ended
  · cases ended
    exact given
  · cases ended

end Json

end ScannerGen
