import StyleFunctions.Document.Codec
import StyleFunctions.Proofs.Reading

/-!
Documents and tokens over finite numbers. The exchange format has no others, so that what is read from
it is finite; other numbers cannot be written.
-/

namespace StyleFunctions

variable {α : Type}

namespace Document

theorem mem_of_member? {name : String} {members : List (String × Document α)} {d : Document α}
    (there : member? name members = some d) : (name, d) ∈ members := by
  obtain ⟨front, back, rfl, _⟩ := List.lookup_eq_some_iff.mp there
  simp

/-- A document whose numbers are all finite. -/
inductive Finite [Scalar α] : Document α → Prop where
  | null : Finite .null
  | bool (truth : Bool) : Finite (.bool truth)
  | number {x : α} : Scalar.isFinite x = true → Finite (.number x)
  | text (content : String) : Finite (.text content)
  | list {items : List (Document α)} : (∀ d ∈ items, Finite d) → Finite (.list items)
  | object {members : List (String × Document α)} : (∀ name d, (name, d) ∈ members → Finite d) →
      Finite (.object members)

theorem finite_pair [Scalar α] {name other : String} {d e : Document α} (first : d.Finite)
    (second : e.Finite) : Finite (.object [(name, d), (other, e)]) := by
  refine .object fun _ _ member => ?_
  simp only [List.mem_cons, Prod.mk.injEq, List.not_mem_nil, or_false] at member
  rcases member with ⟨_, rfl⟩ | ⟨_, rfl⟩
  · exact first
  · exact second

theorem finite_of_number? [Scalar α] {d : Document α} {x : α} (finite : d.Finite)
    (read : d.number? = some x) : Scalar.isFinite x = true := by
  cases finite with
  | number finite =>
      cases read
      exact finite
  | null => cases read
  | bool _ => cases read
  | text _ => cases read
  | list _ => cases read
  | object _ => cases read

theorem finite_of_numberMember? [Scalar α] {name : String} {members : List (String × Document α)}
    {x : α} (finite : ∀ name d, (name, d) ∈ members → Finite d)
    (read : numberMember? name members = some x) : Scalar.isFinite x = true := by
  obtain ⟨d, there, read⟩ := Option.bind_eq_some_iff.mp read
  exact finite_of_number? (finite name d (mem_of_member? there)) read

end Document

open Document

/-! ### The parts of a token -/

section

variable [Scalar α]

def Dimension.Finite (d : Dimension α) : Prop := Scalar.isFinite d.value = true

def Rgba.Finite (c : Rgba α) : Prop :=
  Scalar.isFinite c.red = true ∧ Scalar.isFinite c.green = true ∧ Scalar.isFinite c.blue = true ∧
    Scalar.isFinite c.alpha = true

theorem Dimension.finite_of_document {doc : Document α} {d : Dimension α} (finite : doc.Finite)
    (read : ofDocument? doc = some d) : d.Finite := by
  cases finite with
  | object finite =>
      obtain ⟨_, read⟩ := Option.ite_none_right_eq_some.mp read
      obtain ⟨value, number, read⟩ := Option.bind_eq_some_iff.mp read
      obtain ⟨unit, _, same⟩ := Option.bind_eq_some_iff.mp read
      cases same
      exact finite_of_numberMember? finite number
  | _ => cases read

theorem Rgba.finite_of_document {doc : Document α} {c : Rgba α} (finite : doc.Finite)
    (read : ofDocument? doc = some c) : c.Finite := by
  cases finite with
  | object finite =>
      obtain ⟨_, read⟩ := Option.ite_none_right_eq_some.mp read
      obtain ⟨red, first, read⟩ := Option.bind_eq_some_iff.mp read
      obtain ⟨green, second, read⟩ := Option.bind_eq_some_iff.mp read
      obtain ⟨blue, third, read⟩ := Option.bind_eq_some_iff.mp read
      obtain ⟨alpha, fourth, same⟩ := Option.bind_eq_some_iff.mp read
      cases same
      exact ⟨finite_of_numberMember? finite first, finite_of_numberMember? finite second,
        finite_of_numberMember? finite third, finite_of_numberMember? finite fourth⟩
  | _ => cases read

end

/-! ### Tokens -/

namespace Token

theorem callContent?_eq (members : List (String × Document α)) :
    callContent? members = (member? "value" members).bind callOf? := by
  induction members with
  | nil => simp [callContent?, member?]
  | cons entry members ih =>
      obtain ⟨name, d⟩ := entry
      rw [callContent?, ih, member?, member?, List.lookup_cons]
      cases "value" == name <;> rfl

theorem callArguments?_eq (members : List (String × Document α)) :
    callArguments? members = (member? "args" members).bind listOf? := by
  induction members with
  | nil => simp [callArguments?, member?]
  | cons entry members ih =>
      obtain ⟨name, d⟩ := entry
      rw [callArguments?, ih, member?, member?, List.lookup_cons]
      cases "args" == name <;> rfl

theorem ofDocuments?_eq (ds : List (Document α)) : ofDocuments? ds = ds.mapM ofDocument? := by
  induction ds with
  | nil => rfl
  | cons d ds ih => rw [ofDocuments?, ih, List.mapM_cons]

variable [Scalar α]

/-- A token whose numbers are all finite, at any depth. -/
inductive Finite : Token α → Prop where
  | number {d : Dimension α} : d.Finite → Finite (.number d)
  | color {c : Rgba α} : c.Finite → Finite (.color c)
  | string (t : Text) : Finite (.string t)
  | call {name : String} {arguments : List (Token α)} : (∀ t ∈ arguments, Finite t) →
      Finite (.call name arguments)

/-- What the readers of a document answer is finite. A call stands two levels below its token, so the
three readers are followed together. -/
structure ReadsFinite (doc : Document α) : Prop where
  token : ∀ t, ofDocument? doc = some t → t.Finite
  call : ∀ t, callOf? doc = some t → t.Finite
  list : ∀ ts, listOf? doc = some ts → ∀ t ∈ ts, t.Finite

theorem readsFinite {doc : Document α} (finite : doc.Finite) : ReadsFinite doc := by
  induction finite with
  | null => constructor <;> intro _ read <;> cases read
  | bool _ => constructor <;> intro _ read <;> cases read
  | number _ => constructor <;> intro _ read <;> cases read
  | text _ => constructor <;> intro _ read <;> cases read
  | list _ ih =>
      refine ⟨fun _ read => (nomatch read), fun _ read => (nomatch read), fun ts read t member => ?_⟩
      rw [listOf?, ofDocuments?_eq] at read
      obtain ⟨d, there, read⟩ := exists_of_mapM read member
      exact (ih d there).token t read
  | @object members finite ih =>
      refine ⟨fun t read => ?_, fun t read => ?_, fun _ read => (nomatch read)⟩
      · rw [ofDocument?] at read
        obtain ⟨_, read⟩ := Option.ite_none_right_eq_some.mp read
        split at read
        · obtain ⟨d, inner, rfl⟩ := Option.map_eq_some_iff.mp read
          obtain ⟨content, there, inner⟩ := Option.bind_eq_some_iff.mp inner
          exact .number (Dimension.finite_of_document (finite _ _ (mem_of_member? there)) inner)
        · obtain ⟨c, inner, rfl⟩ := Option.map_eq_some_iff.mp read
          obtain ⟨content, there, inner⟩ := Option.bind_eq_some_iff.mp inner
          exact .color (Rgba.finite_of_document (finite _ _ (mem_of_member? there)) inner)
        · obtain ⟨text, _, rfl⟩ := Option.map_eq_some_iff.mp read
          exact .string text
        · rw [callContent?_eq] at read
          obtain ⟨content, there, read⟩ := Option.bind_eq_some_iff.mp read
          exact (ih _ _ (mem_of_member? there)).call t read
        · cases read
      · rw [callOf?] at read
        obtain ⟨_, read⟩ := Option.ite_none_right_eq_some.mp read
        obtain ⟨name, _, read⟩ := Option.bind_eq_some_iff.mp read
        obtain ⟨arguments, given, same⟩ := Option.bind_eq_some_iff.mp read
        cases same
        rw [callArguments?_eq] at given
        obtain ⟨content, there, given⟩ := Option.bind_eq_some_iff.mp given
        exact .call ((ih _ _ (mem_of_member? there)).list arguments given)

theorem finite_of_document {doc : Document α} {t : Token α} (finite : doc.Finite)
    (read : ofDocument? doc = some t) : t.Finite :=
  (readsFinite finite).token t read

end Token

/-! ### Values -/

namespace Value

variable [Scalar α]

def Finite : Value α → Prop
  | .token t => t.Finite
  | _ => True

theorem finite_of_document {doc : Document α} {v : Value α} (finite : doc.Finite)
    (read : ofDocument? doc = some v) : v.Finite := by
  cases v with
  | token t =>
      cases finite with
      | object finite =>
          rw [ofDocument?] at read
          obtain ⟨_, read⟩ := Option.ite_none_right_eq_some.mp read
          split at read
          · obtain ⟨u, read, same⟩ := Option.map_eq_some_iff.mp read
            cases same
            obtain ⟨content, there, read⟩ := Option.bind_eq_some_iff.mp read
            exact Token.finite_of_document (finite _ _ (mem_of_member? there)) read
          · obtain ⟨_, _, other⟩ := Option.map_eq_some_iff.mp read
            cases other
          · split at read <;> cases read
          · split at read <;> cases read
          · obtain ⟨_, _, other⟩ := Option.map_eq_some_iff.mp read
            cases other
          · cases read
      | _ => cases read
  | _ => trivial

end Value

end StyleFunctions
