import StyleFunctions.Proofs.Document.Finite
import StyleFunctions.Scalar.Double

/-!
Documents lose nothing: what is written is read back, and what was read from any document, however its
members are arranged and whatever it leaves out, is written in one form that is read as the same again.
-/

namespace StyleFunctions

open Document

variable {α β : Type}

/-! ### The parts of a token -/

namespace Document

theorem textList?_texts (contents : List String) :
    textList? (texts contents : Document α) = some contents :=
  mapM_map_of_inverse fun _ _ => rfl

theorem character?_singleton (c : Char) :
    character? (.text (String.singleton c) : Document α) = some c := by
  simp [character?]

theorem ofNumber_eq [Scalar α] {x : α} (finite : Scalar.isFinite x = true) :
    ofNumber x = .number x :=
  if_pos finite

end Document

theorem Dimension.ofDocument?_document [Scalar α] {d : Dimension α} (finite : d.Finite) :
    ofDocument? d.document = some d := by
  rw [document, ofNumber_eq finite]
  rfl

theorem Rgba.ofDocument?_document [Scalar α] {c : Rgba α} (finite : c.Finite) :
    ofDocument? c.document = some c := by
  obtain ⟨red, green, blue, alpha⟩ := finite
  rw [document, ofNumber_eq red, ofNumber_eq green, ofNumber_eq blue, ofNumber_eq alpha]
  rfl

theorem Text.ofDocument?_document (t : Text) :
    ofDocument? (t.document : Document α) = some t := by
  obtain ⟨content, _ | c⟩ := t
  · rfl
  · have quoted := character?_singleton (α := α) c
    simp [document, ofDocument?, distinct, occurrences, textMember?, optionalMember?, member?,
      List.lookup_cons, text?, quoted]

theorem Severity.ofDocument?_document (s : Severity) :
    ofDocument? (s.document : Document α) = some s := by
  cases s <;> rfl

/-- The suggestion and the notes are read whether they are written or not. -/
theorem Report.ofDocument?_document (r : Report) :
    ofDocument? (r.document : Document α) = some r := by
  obtain ⟨code, message, suggestion, notes, severity⟩ := r
  have rated := Severity.ofDocument?_document (α := α) severity
  have noted := textList?_texts (α := α) notes
  cases suggestion <;> cases notes <;>
    simp [document, ofDocument?, distinct, occurrences, textMember?, optionalMember?, memberOr?,
      member?, List.lookup_cons, text?, rated, noted]

/-! ### Tokens and values -/

namespace Token

variable [Scalar α]

theorem documents_eq (ts : List (Token α)) : documents ts = ts.map document := by
  induction ts with
  | nil => rfl
  | cons t ts ih => rw [documents, ih, List.map_cons]

theorem ofDocuments?_documents {ts : List (Token α)}
    (back : ∀ t ∈ ts, ofDocument? t.document = some t) : ofDocuments? (documents ts) = some ts := by
  rw [ofDocuments?_eq, documents_eq]
  exact mapM_map_of_inverse back

theorem ofDocument?_call {name : String} {arguments : List (Token α)}
    (back : ∀ t ∈ arguments, ofDocument? t.document = some t) :
    ofDocument? (Token.call name arguments).document = some (.call name arguments) := by
  have given : callArguments? [("name", .text name), ("args", .list (documents arguments))] =
      some arguments := by
    rw [callArguments?_eq]
    exact ofDocuments?_documents back
  have called : callOf? (.object [("name", .text name), ("args", .list (documents arguments))]) =
      some (.call name arguments) := by
    rw [callOf?, given]
    rfl
  have content : type? [("type", .text "FunctionCall"),
      ("value", .object [("name", .text name), ("args", .list (documents arguments))])] =
        some "FunctionCall" := rfl
  rw [document, tagged, ofDocument?, content]
  exact (callContent?_eq _).trans called

theorem ofDocument?_document {t : Token α} (finite : t.Finite) :
    ofDocument? t.document = some t := by
  induction finite with
  | @number d finite =>
      have back := Dimension.ofDocument?_document finite
      rw [document, tagged, ofDocument?]
      exact congrArg (Option.map Token.number) back
  | @color c finite =>
      have back := Rgba.ofDocument?_document finite
      rw [document, tagged, ofDocument?]
      exact congrArg (Option.map Token.color) back
  | string t =>
      have back := Text.ofDocument?_document (α := α) t
      rw [document, tagged, ofDocument?]
      exact congrArg (Option.map Token.string) back
  | call _ back => exact ofDocument?_call back

end Token

theorem Value.ofDocument?_document [Scalar α] {v : Value α} (finite : v.Finite) :
    ofDocument? v.document = some v := by
  cases v with
  | token t => exact congrArg (Option.map Value.token) (Token.ofDocument?_document finite)
  | bool b => rfl
  | unresolved => rfl
  | undefined => rfl
  | error r => exact congrArg (Option.map Value.error) (Report.ofDocument?_document r)

/-! ### Members by name -/

theorem Document.member?_eq (name : String) (members : List (String × Document α)) :
    member? name members = (occurrences name members).head? := by
  induction members with
  | nil => rfl
  | cons entry members ih =>
      obtain ⟨other, d⟩ := entry
      rw [member?, occurrences] at ih ⊢
      rw [List.lookup_cons, List.filter_cons]
      cases same : name == other with
      | true =>
          obtain rfl := beq_iff_eq.mp same
          simp
      | false => simpa [Ne.symm (beq_eq_false_iff_ne.mp same)] using ih

/-- A reader that knows members by their names. Where they stand and what stands beside them makes no
difference, and a name that occurs twice is refused. -/
structure ReadsByName (known : List String) (read : Document α → Option β) : Prop where
  congr (members members' : List (String × Document α)) :
    (∀ name ∈ known, occurrences name members = occurrences name members') →
      read (.object members) = read (.object members')
  refuses (members : List (String × Document α)) (name : String) : name ∈ known →
    2 ≤ (occurrences name members).length → read (.object members) = none

theorem readsByName_of {known : List String} {read : Document α → Option β}
    {fields : List (String × Document α) → Option β}
    (guarded : ∀ members, read (.object members) =
      if distinct known members then fields members else none)
    (congr : ∀ members members', (∀ name ∈ known, member? name members = member? name members') →
      fields members = fields members') : ReadsByName known read where
  congr members members' same := by
    have first : ∀ name ∈ known, member? name members = member? name members' := by
      intro name listed
      rw [member?_eq, member?_eq, same name listed]
    have alike : distinct known members = distinct known members' := by
      rw [Bool.eq_iff_iff, distinct, distinct, List.all_eq_true, List.all_eq_true]
      exact forall₂_congr fun name listed => by rw [same name listed]
    rw [guarded, guarded, alike, congr members members' first]
  refuses members name listed twice := by
    have doubled : ¬ distinct known members = true := by
      rw [distinct, List.all_eq_true]
      intro single
      have once := of_decide_eq_true (single name listed)
      omega
    rw [guarded, if_neg doubled]

theorem Dimension.readsByName :
    ReadsByName ["value", "unit"] (ofDocument? : Document α → Option (Dimension α)) := by
  apply readsByName_of (fun members => rfl)
  intro members members' same
  simp only [List.forall_mem_cons] at same
  simp only [numberMember?, memberOr?, same]

theorem Report.readsByName :
    ReadsByName ["code", "message", "suggestion", "notes", "severity"]
      (ofDocument? : Document α → Option Report) := by
  apply readsByName_of (fun members => rfl)
  intro members members' same
  simp only [List.forall_mem_cons] at same
  simp only [textMember?, optionalMember?, memberOr?, same]

theorem Token.readsByName :
    ReadsByName ["type", "value"] (ofDocument? : Document α → Option (Token α)) := by
  apply readsByName_of (fun members => by rw [ofDocument?])
  intro members members' same
  simp only [List.forall_mem_cons] at same
  simp only [callContent?_eq, type?, same]

theorem Value.readsByName :
    ReadsByName ["type", "value"] (ofDocument? : Document α → Option (Value α)) := by
  apply readsByName_of (fun members => rfl)
  intro members members' same
  simp only [List.forall_mem_cons] at same
  have empty : hasNoContent members = hasNoContent members' := by
    simp only [hasNoContent, same]
  simp only [type?, empty, same]

/-! ### Formats -/

/-- A format that loses nothing. What is finite is written such that it is read back; and whatever is
read from some document of the format is read again from what is written for it, which is its own
written form. -/
structure Lossless [Scalar α] (known : List String) (write : β → Document α)
    (read : Document α → Option β) (finite : β → Prop) : Prop where
  read_write : ∀ b, finite b → read (write b) = some b
  rewrite : ∀ doc : Document α, doc.Finite → ∀ b, read doc = some b →
    read (write b) = some b ∧ (read (write b)).map write = some (write b)
  by_name : ReadsByName known read

theorem lossless_of_finite [Scalar α] {known : List String} {write : β → Document α}
    {read : Document α → Option β} {finite : β → Prop}
    (back : ∀ b, finite b → read (write b) = some b)
    (reads : ∀ doc : Document α, doc.Finite → ∀ b, read doc = some b → finite b)
    (named : ReadsByName known read) : Lossless known write read finite := by
  refine ⟨back, fun doc numbers b given => ?_, named⟩
  have again := back b (reads doc numbers b given)
  exact ⟨again, by rw [again, Option.map_some]⟩

/-- Numbers with a unit, tokens with calls at any depth, answers and reports lose nothing in the form of
documents. -/
theorem documents_lossless [Scalar α] :
    Lossless ["value", "unit"] (Dimension.document (α := α)) Dimension.ofDocument?
      Dimension.Finite ∧
    Lossless ["type", "value"] (Token.document (α := α)) Token.ofDocument? Token.Finite ∧
    Lossless ["type", "value"] (Value.document (α := α)) Value.ofDocument? Value.Finite ∧
    Lossless ["code", "message", "suggestion", "notes", "severity"]
      (Report.document (α := α)) Report.ofDocument? fun _ => True := by
  refine ⟨lossless_of_finite ?_ ?_ Dimension.readsByName, lossless_of_finite ?_ ?_ Token.readsByName,
    lossless_of_finite ?_ ?_ Value.readsByName, lossless_of_finite ?_ ?_ Report.readsByName⟩
  · exact fun _ => Dimension.ofDocument?_document
  · exact fun _ numbers _ => Dimension.finite_of_document numbers
  · exact fun _ => Token.ofDocument?_document
  · exact fun _ numbers _ => Token.finite_of_document numbers
  · exact fun _ => Value.ofDocument?_document
  · exact fun _ numbers _ => Value.finite_of_document numbers
  · exact fun r _ => Report.ofDocument?_document r
  · exact fun _ _ _ _ => trivial

/-- A call in a call is read back. A number whose members stand in another order, with one that is not
known and without the unit, and an unresolved call with an empty content are read and written in their
own form. -/
theorem documents_lossless_samples :
    let one : Float := Scalar.ofNat 1
    let nested : Token Float := .call "f" [.call "url" [.number ⟨one, "px"⟩], .string ⟨"a", some '"'⟩]
    let number : Document Float :=
      .object [("value", .object [("note", .null), ("value", .number one)]), ("type", .text "Number")]
    let unresolved : Document Float := .object [("type", .text "Unresolved"), ("value", .null)]
    nested.Finite ∧ Token.ofDocument? nested.document = some nested ∧
    number.Finite ∧ Token.ofDocument? number = some (.number ⟨one, ""⟩) ∧
    (Token.ofDocument? (Token.number ⟨one, ""⟩).document).map Token.document =
      some (Token.number ⟨one, ""⟩).document ∧
    unresolved.Finite ∧ Value.ofDocument? unresolved = some .unresolved ∧
    (Value.ofDocument? (Value.unresolved (α := Float)).document).map Value.document =
      some (Value.unresolved (α := Float)).document := by
  intro one nested number unresolved
  have finite : Scalar.isFinite one = true := by decide +kernel
  have whole : nested.Finite := by
    refine .call (List.forall_mem_cons.mpr ⟨.call ?_, ?_⟩)
    · exact List.forall_mem_singleton.mpr (.number finite)
    · exact List.forall_mem_singleton.mpr (.string _)
  have numbers : number.Finite := finite_pair (finite_pair .null (.number finite)) (.text _)
  have empty : unresolved.Finite := finite_pair (.text _) .null
  obtain ⟨_, tokens, values, _⟩ := documents_lossless (α := Float)
  exact ⟨whole, tokens.read_write nested whole, numbers, rfl, (tokens.rewrite number numbers _ rfl).2,
    empty, rfl, (values.rewrite unresolved empty _ rfl).2⟩

end StyleFunctions
