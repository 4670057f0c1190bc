import Shozee.References.Lookup
import Shozee.References.NumberTexts

/-!
# Orders and documents by their numbers

An order is named by its number, with or without the company's prefix; a
document by its number, the part of it behind the prefix, or the bare sequence,
which an invoice and a delivery note may share
(`orders/src/services/resolve-order-reference.ts`,
`documents/src/services/resolve-document-reference.ts`).

A number names its record however it is typed, and only a number does: what is
found has the number that was named, or is the only one with the sequence
(`numberReferences_exact`).
-/

namespace Shozee.References

open Shozee.Run
open Shozee.Validation
open Shozee.Search
open Shozee.Documents

/-! ## Orders

How an order reference is resolved. -/

/-- An order by its id or its number. -/
structure OrderReferenceInput where
  orderId : Option Uuid
  orderNumber : Option CodeUnits
deriving DecidableEq

/-- A document by its id or its number. -/
structure DocumentReferenceInput where
  documentId : Option Uuid
  documentNumber : Option CodeUnits
deriving DecidableEq

section Services

variable (L : SearchLanguage) (C : Collation) (rows : List NumberRow)
  (companyId : Uuid) (numbering : String)

/-- The literal in front of the pattern's `%`. -/
def orderNumberLeftPrefixPattern (canonical : CodeUnits) : Option CodeUnits :=
  Catalog.sanitizeLikeLiteral canonical

/-- The orders whose numbers begin with a text. -/
def loadOrderNumberCandidates (literal : CodeUnits) : List NumberRow :=
  loadCandidates C rows companyId fun number => startsWith number literal

/-- The order that a number names, or the refusal with what it may have meant.
-/
def orderIdFromNumber (orderNumber : CodeUnits) :
    Except ReferenceError Uuid :=
  let target : EntityLookupTarget := ⟨.order, orderNumber⟩
  let refused := .error (.lookup
    (entityLookupRefusal L.toLanguage target false []))
  match canonicalizeOrderNumberToken L orderNumber (codeUnits numbering) with
  | none => refused
  | some canonical =>
      match orderNumberLeftPrefixPattern canonical with
      | none => refused
      | some literal =>
          onlyExact L.toLanguage target (fun number => number = canonical)
            (loadOrderNumberCandidates C rows companyId literal)

/-- The prefix is the company's, which `getCompany` answers. -/
def resolveOrderReference (input : OrderReferenceInput) :
    Except ReferenceError Uuid :=
  match input.orderId, input.orderNumber with
  | some orderId, _ => .ok orderId
  | none, none =>
      .error (.coreInvariant
        "an order reference carries neither orderId nor orderNumber")
  | none, some orderNumber =>
      orderIdFromNumber L C rows companyId numbering orderNumber

/-! ## Documents

How a document reference is resolved, by the whole number or by a part of it.
-/

/-- `BigInt(sequence)`, of digits. -/
def sequenceOf (sequence : CodeUnits) : ℕ :=
  sequence.foldl (fun value unit => 10 * value + (unit.toNat - 48)) 0

/-- The invoice's number and the delivery note's. -/
def seqDocumentNumbers (sequence : CodeUnits) :
    Option (CodeUnits × CodeUnits) :=
  if sequence = [] ∨ sequence.all isDigitUnit = false then none
  else
    let seq := sequenceOf sequence
    let invoice :=
      codeUnits (formatDocumentNumber numbering .payment_invoice seq)
    let delivery :=
      codeUnits (formatDocumentNumber numbering .delivery_note seq)
    if invoice.rtakeWhile (· ≠ dash) ≠ sequence then none
    else some (invoice, delivery)

/-- The beginning of a number, without what a `LIKE` would read as a pattern.
-/
def documentNumberLeftPrefixPattern (canonical : CodeUnits) :
    Option CodeUnits :=
  Catalog.sanitizeLikeLiteral canonical

/-- The condition on a row, and whether its number is exactly what was
named. -/
structure DocumentNumberMatch where
  condition : CodeUnits → Bool
  isExact : CodeUnits → Bool

/-- The condition that a query puts on numbers: two whole ones for a sequence,
else a beginning. -/
def documentNumberMatch :
    CanonicalDocumentNumberQuery → Option DocumentNumberMatch
  | .seq sequence =>
      (seqDocumentNumbers numbering sequence).map fun numbers =>
        ⟨fun number => number = numbers.1 || number = numbers.2,
          fun _ => true⟩
  | .canonical value =>
      (documentNumberLeftPrefixPattern value).map fun literal =>
        ⟨fun number => startsWith number literal,
          fun number => number = value⟩
  | .empty | .none => none

/-- The documents whose numbers meet a condition. -/
def loadDocumentNumberCandidates (condition : CodeUnits → Bool) :
    List NumberRow :=
  loadCandidates C rows companyId condition

/-- The document that a number names, or the refusal with what it may have
meant. -/
def documentIdFromNumber (documentNumber : CodeUnits) :
    Except ReferenceError Uuid :=
  let target : EntityLookupTarget := ⟨.document, documentNumber⟩
  match documentNumberMatch numbering
      (canonicalizeDocumentNumberQuery L documentNumber
        (codeUnits numbering)) with
  | none =>
      .error (.lookup (entityLookupRefusal L.toLanguage target false []))
  | some found =>
      onlyExact L.toLanguage target found.isExact
        (loadDocumentNumberCandidates C rows companyId found.condition)

/-- The document of a reference. An id goes before a number. -/
def resolveDocumentReference (input : DocumentReferenceInput) :
    Except ReferenceError Uuid :=
  match input.documentId, input.documentNumber with
  | some documentId, _ => .ok documentId
  | none, none =>
      .error (.coreInvariant
        "a document reference carries neither documentId nor documentNumber")
  | none, some documentNumber =>
      documentIdFromNumber L C rows companyId numbering documentNumber

end Services

/-! ## The rows of a company

The tables, with what the services keep of numbers, and the two statements. -/

/-- The orders there are, those of the company numbered under its prefix, each
with a number of its own. -/
structure OrderTable (companyId : Uuid) (numbering : String) where
  rows : List NumberRow
  numbers_differ : NumbersDiffer rows companyId
  numbered : ∀ row ∈ rows, row.companyId = companyId → ∃ seq number,
    Orders.formatStaffOrderNumber numbering seq = .ok number ∧
      row.number = codeUnits number

/-- A row of `documents`. -/
structure DocumentRow extends NumberRow where
  type : DocumentType
deriving DecidableEq

/-- Whether a row's number is that of its type with a sequence. -/
def DocumentRow.HasSequence (row : DocumentRow) (numbering : String)
    (sequence : ℕ) : Prop :=
  row.number = codeUnits (formatDocumentNumber numbering row.type sequence)

/-- The documents there are, those of the company numbered under its prefix,
each with a number that no other of its type has. -/
structure DocumentTable (companyId : Uuid) (numbering : String) where
  rows : List DocumentRow
  numbers_differ : ((rows.filter fun row => row.companyId = companyId).map
    fun row => (row.type, row.number)).Nodup
  numbered : ∀ row ∈ rows, row.companyId = companyId →
    ∃ sequence, row.HasSequence numbering sequence

/-- The documents as rows with numbers. -/
def DocumentTable.numberRows {companyId : Uuid} {numbering : String}
    (documents : DocumentTable companyId numbering) : List NumberRow :=
  documents.rows.map DocumentRow.toNumberRow

section Exact

variable (L : SearchLanguage) (C : Collation) {companyId : Uuid}
  {numbering : String}

/-- An order is what its number names, and nothing else names it. -/
structure OrdersExact (orders : OrderTable companyId numbering) : Prop where
  full : ∀ order ∈ orders.rows, order.companyId = companyId →
    ∀ raw, TypedFor order.number raw →
      resolveOrderReference L C orders.rows companyId numbering
        ⟨none, some raw⟩ = .ok order.id
  only : ∀ raw id,
    resolveOrderReference L C orders.rows companyId numbering
        ⟨none, some raw⟩ = .ok id →
      ∃ order ∈ orders.rows, order.companyId = companyId ∧ order.id = id ∧
        canonicalizeOrderNumberToken L raw (codeUnits numbering) =
          some order.number
  kept : ∀ raw literal, ∀ order ∈ orders.rows, order.companyId = companyId →
    canonicalizeOrderNumberToken L raw (codeUnits numbering) =
      some order.number →
    orderNumberLeftPrefixPattern order.number = some literal →
      order ∈ loadOrderNumberCandidates C orders.rows companyId literal

/-- And so with documents, of which a bare sequence names the only one that has
it. -/
structure DocumentsExact (documents : DocumentTable companyId numbering) :
    Prop where
  full : ∀ document ∈ documents.rows, document.companyId = companyId →
    ∀ raw, TypedFor document.number raw →
      resolveDocumentReference L C documents.numberRows companyId numbering
        ⟨none, some raw⟩ = .ok document.id
  only : ∀ raw id,
    resolveDocumentReference L C documents.numberRows companyId numbering
        ⟨none, some raw⟩ = .ok id →
      ∃ document ∈ documents.rows, document.companyId = companyId ∧
        document.id = id ∧
        (canonicalizeDocumentNumberQuery L raw (codeUnits numbering) =
            .canonical document.number ∨
          ∃ sequence,
            canonicalizeDocumentNumberQuery L raw (codeUnits numbering) =
              .seq sequence ∧
            document.HasSequence numbering (sequenceOf sequence) ∧
            ∀ other ∈ documents.rows, other.companyId = companyId →
              other.HasSequence numbering (sequenceOf sequence) →
                other = document)
  kept : ∀ raw found, documentNumberMatch numbering
      (canonicalizeDocumentNumberQuery L raw (codeUnits numbering)) =
        some found →
    ∀ document ∈ documents.rows, document.companyId = companyId →
      found.isExact document.number = true →
      found.condition document.number = true →
        document.toNumberRow ∈ loadDocumentNumberCandidates C
          documents.numberRows companyId found.condition

end Exact

/-! ## Numbers in patterns

A number has none of the characters that a pattern means something by. -/

theorem like_table : (codeUnits "\\%_").all (fun unit => !isNumberUnit unit) := by
  decide

/-- There is nothing in a number that a pattern cannot have. -/
theorem sanitizeLikeLiteral_number {text : CodeUnits} (hne : text ≠ [])
    (h : IsNumber text) : Catalog.sanitizeLikeLiteral text = some text := by
  have hclean : text.filter (fun unit => unit ∉ codeUnits "\\%_") = text := by
    refine List.filter_eq_self.mpr fun unit hunit => ?_
    refine decide_eq_true fun hspecial => ?_
    have hother := List.all_eq_true.mp like_table unit hspecial
    rw [h unit hunit] at hother
    cases hother
  rw [Catalog.sanitizeLikeLiteral, hclean, if_neg hne]

/-! ## Orders by number

A typed number finds its order, and what finds an order is its number. -/

section Orders

variable {L : SearchLanguage} (hL : PlainLetters L) (C : Collation)
  {companyId : Uuid} {numbering : String}
  (hnumbering : IsPart (codeUnits numbering))
  (orders : OrderTable companyId numbering)

include hnumbering

theorem OrderTable.literal {order : NumberRow} (horder : order ∈ orders.rows)
    (hcompany : order.companyId = companyId) :
    orderNumberLeftPrefixPattern order.number = some order.number := by
  obtain ⟨seq, number, hformat, hnumber⟩ :=
    orders.numbered order horder hcompany
  obtain ⟨code, hcode, hparts⟩ := parts_of_formatStaffOrderNumber hformat
  rw [hnumber, hparts]
  exact sanitizeLikeLiteral_number
    (List.append_ne_nil_of_left_ne_nil hnumbering.nonempty _)
    (hnumbering.number.append hcode.number)

theorem OrderTable.mem_candidates {order : NumberRow}
    (horder : order ∈ orders.rows) (hcompany : order.companyId = companyId)
    {literal : CodeUnits}
    (hliteral : orderNumberLeftPrefixPattern order.number = some literal) :
    order ∈ loadOrderNumberCandidates C orders.rows companyId literal := by
  rw [orders.literal hnumbering horder hcompany] at hliteral
  obtain rfl := Option.some.inj hliteral
  exact mem_candidates_of_prefix C orders.numbers_differ horder hcompany

include hL

theorem orderIdFromNumber_typed {order : NumberRow}
    (horder : order ∈ orders.rows) (hcompany : order.companyId = companyId)
    {raw : CodeUnits} (htyped : TypedFor order.number raw) :
    orderIdFromNumber L C orders.rows companyId numbering raw =
      .ok order.id := by
  have hliteral := orders.literal hnumbering horder hcompany
  obtain ⟨seq, number, hformat, hnumber⟩ :=
    orders.numbered order horder hcompany
  obtain ⟨code, hcode, hparts⟩ := parts_of_formatStaffOrderNumber hformat
  have hcanonical : canonicalizeOrderNumberToken L raw (codeUnits numbering) =
      some order.number := by
    rw [hnumber, hparts] at htyped ⊢
    exact canonicalizeOrderNumberToken_typed hL hnumbering hcode htyped
  unfold orderIdFromNumber
  rw [hcanonical]
  dsimp only
  rw [hliteral]
  exact onlyExact_of_mem _ _ (orders.numbers_differ.candidates C _)
    (orders.mem_candidates C hnumbering horder hcompany hliteral)

omit hL hnumbering

theorem orderIdFromNumber_eq_ok {raw : CodeUnits} {id : Uuid}
    (h : orderIdFromNumber L C orders.rows companyId numbering raw = .ok id) :
    ∃ order ∈ orders.rows, order.companyId = companyId ∧ order.id = id ∧
      canonicalizeOrderNumberToken L raw (codeUnits numbering) =
        some order.number := by
  unfold orderIdFromNumber at h
  dsimp only at h
  split at h
  next => cases h
  next canonical hcanonical =>
    split at h
    next => cases h
    next literal hliteral =>
      obtain ⟨only, honly, hid⟩ := onlyExact_eq_ok h
      have hmem : only ∈ (loadOrderNumberCandidates C orders.rows companyId
          literal).filter fun row => row.number = canonical := by
        rw [honly]
        exact List.mem_singleton_self _
      obtain ⟨hcandidate, hexact⟩ := List.mem_filter.mp hmem
      obtain ⟨hrow, hcompany, -⟩ := mem_candidates hcandidate
      refine ⟨only, hrow, hcompany, hid, ?_⟩
      rw [hcanonical, of_decide_eq_true hexact]

end Orders

/-! ## Documents by number

The same, and a bare sequence that an invoice and a delivery note share. -/

section Documents

variable {L : SearchLanguage} (hL : PlainLetters L) (C : Collation)
  {companyId : Uuid} {numbering : String}
  (hnumbering : IsPart (codeUnits numbering))
  (documents : DocumentTable companyId numbering)

/-- The code in a number tells the type. -/
theorem type_eq_of_number_eq {type type' : DocumentType} {n m : ℕ}
    (h : codeUnits (formatDocumentNumber numbering type n) =
      codeUnits (formatDocumentNumber numbering type' m)) : type = type' := by
  rw [parts_of_formatDocumentNumber, parts_of_formatDocumentNumber,
    List.append_right_inj, List.cons_inj_right] at h
  have hlength : (codeUnits (documentTypeCode type)).length =
      (codeUnits (documentTypeCode type')).length := by
    cases type <;> cases type' <;> decide
  have hcode := List.append_inj_left h hlength
  cases type <;> cases type'
  · rfl
  · exact absurd hcode (by decide)
  · exact absurd hcode (by decide)
  · rfl

/-- A number of a sequence is that of its document. -/
theorem DocumentTable.hasSequence {document : DocumentRow}
    (hdocument : document ∈ documents.rows)
    (hcompany : document.companyId = companyId) {type : DocumentType} {n : ℕ}
    (h : document.number = codeUnits (formatDocumentNumber numbering type n)) :
    document.HasSequence numbering n := by
  obtain ⟨m, hm⟩ := documents.numbered document hdocument hcompany
  have htype := type_eq_of_number_eq (h.symm.trans hm)
  rwa [DocumentRow.HasSequence, ← htype]

theorem DocumentTable.eq_of_number_eq {document other : DocumentRow}
    (hdocument : document ∈ documents.rows)
    (hcompany : document.companyId = companyId)
    (hother : other ∈ documents.rows)
    (hother_company : other.companyId = companyId)
    (heq : document.number = other.number) : document = other := by
  obtain ⟨n, hn⟩ := documents.numbered document hdocument hcompany
  obtain ⟨m, hm⟩ := documents.numbered other hother hother_company
  refine List.inj_on_of_nodup_map documents.numbers_differ
    (List.mem_filter.mpr ⟨hdocument, decide_eq_true hcompany⟩)
    (List.mem_filter.mpr ⟨hother, decide_eq_true hother_company⟩) ?_
  have htype := type_eq_of_number_eq (hn.symm.trans (heq.trans hm))
  exact Prod.ext htype heq

theorem DocumentTable.numbersDiffer :
    NumbersDiffer documents.numberRows companyId := by
  have hfilter : documents.numberRows.filter (fun row =>
      row.companyId = companyId) =
      (documents.rows.filter fun row => row.companyId = companyId).map
        DocumentRow.toNumberRow :=
    List.filter_map
  rw [NumbersDiffer, hfilter, List.map_map]
  refine List.Nodup.map_on ?_ documents.numbers_differ.of_map
  intro document hdocument other hother heq
  obtain ⟨hdocument, hcompany⟩ := List.mem_filter.mp hdocument
  obtain ⟨hother, hother_company⟩ := List.mem_filter.mp hother
  exact documents.eq_of_number_eq hdocument (of_decide_eq_true hcompany)
    hother (of_decide_eq_true hother_company) heq

/-- Of the company's documents, no more than two have a bare sequence. -/
theorem DocumentTable.length_seq_le (first second : CodeUnits) :
    (documents.numberRows.filter fun row => row.companyId = companyId &&
      (row.number = first || row.number = second)).length ≤ 2 := by
  have hnodup := documents.numbersDiffer.candidateRows
    fun number => number = first || number = second
  have hsubset : (documents.numberRows.filter fun row =>
      row.companyId = companyId &&
        (row.number = first || row.number = second)).map NumberRow.number ⊆
      [first, second] := by
    intro number hnumber
    obtain ⟨row, hrow, rfl⟩ := List.mem_map.mp hnumber
    have hmatch := (List.mem_filter.mp hrow).2
    rw [Bool.and_eq_true, Bool.or_eq_true] at hmatch
    rcases hmatch.2 with heq | heq
    · rw [of_decide_eq_true heq]
      exact List.mem_cons_self
    · rw [of_decide_eq_true heq]
      exact List.mem_cons_of_mem _ (List.mem_singleton_self _)
  have hlength := (List.subperm_of_subset hnodup hsubset).length_le
  rwa [List.length_map] at hlength

theorem seqDocumentNumbers_eq_some {sequence : CodeUnits}
    {numbers : CodeUnits × CodeUnits}
    (h : seqDocumentNumbers numbering sequence = some numbers) :
    numbers =
      (codeUnits (formatDocumentNumber numbering .payment_invoice
          (sequenceOf sequence)),
        codeUnits (formatDocumentNumber numbering .delivery_note
          (sequenceOf sequence))) := by
  unfold seqDocumentNumbers at h
  split at h
  next => cases h
  next =>
    dsimp only at h
    split at h
    next => cases h
    next =>
      cases h
      rfl

/-- What a bare sequence matches. -/
theorem DocumentTable.seq_iff {sequence : CodeUnits}
    {found : DocumentNumberMatch}
    (hfound : documentNumberMatch numbering (.seq sequence) = some found)
    {document : DocumentRow} (hdocument : document ∈ documents.rows)
    (hcompany : document.companyId = companyId) :
    found.condition document.number = true ↔
      document.HasSequence numbering (sequenceOf sequence) := by
  obtain ⟨numbers, hnumbers, rfl⟩ := Option.map_eq_some_iff.mp hfound
  rw [seqDocumentNumbers_eq_some hnumbers, Bool.or_eq_true,
    decide_eq_true_eq, decide_eq_true_eq]
  constructor
  · intro h
    rcases h with h | h
    · exact documents.hasSequence hdocument hcompany h
    · exact documents.hasSequence hdocument hcompany h
  · intro h
    rw [DocumentRow.HasSequence] at h
    cases htype : document.type with
    | payment_invoice =>
        rw [htype] at h
        exact Or.inl h
    | delivery_note =>
        rw [htype] at h
        exact Or.inr h

theorem DocumentTable.mem_candidates_seq {sequence : CodeUnits}
    {found : DocumentNumberMatch}
    (hfound : documentNumberMatch numbering (.seq sequence) = some found)
    {document : DocumentRow} (hdocument : document ∈ documents.rows)
    (hcompany : document.companyId = companyId)
    (hcondition : found.condition document.number = true) :
    document.toNumberRow ∈ loadDocumentNumberCandidates C
      documents.numberRows companyId found.condition := by
  obtain ⟨numbers, -, rfl⟩ := Option.map_eq_some_iff.mp hfound
  exact mem_candidates_of_few C
    ((documents.length_seq_le numbers.1 numbers.2).trans (by decide))
    (List.mem_map_of_mem hdocument) hcompany hcondition

theorem DocumentTable.mem_candidates_number {document : DocumentRow}
    (hdocument : document ∈ documents.rows)
    (hcompany : document.companyId = companyId) :
    document.toNumberRow ∈ loadDocumentNumberCandidates C
      documents.numberRows companyId
        fun number => startsWith number document.number :=
  mem_candidates_of_prefix C documents.numbersDiffer
    (List.mem_map_of_mem hdocument) hcompany

include hnumbering

theorem DocumentTable.literal {document : DocumentRow}
    (hdocument : document ∈ documents.rows)
    (hcompany : document.companyId = companyId) :
    documentNumberLeftPrefixPattern document.number =
      some document.number := by
  obtain ⟨sequence, hsequence⟩ :=
    documents.numbered document hdocument hcompany
  rw [hsequence, parts_of_formatDocumentNumber]
  exact sanitizeLikeLiteral_number
    (List.append_ne_nil_of_left_ne_nil hnumbering.nonempty _)
    (hnumbering.number.append ((isPart_documentTypeCode _).number.append
      (isPart_sequenceText sequence).number))

/-- The match that a document's own number is. -/
theorem DocumentTable.match_number {document : DocumentRow}
    (hdocument : document ∈ documents.rows)
    (hcompany : document.companyId = companyId) :
    documentNumberMatch numbering (.canonical document.number) =
      some ⟨fun number => startsWith number document.number,
        fun number => number = document.number⟩ := by
  rw [documentNumberMatch, documents.literal hnumbering hdocument hcompany]
  rfl

include hL

theorem documentIdFromNumber_typed {document : DocumentRow}
    (hdocument : document ∈ documents.rows)
    (hcompany : document.companyId = companyId) {raw : CodeUnits}
    (htyped : TypedFor document.number raw) :
    documentIdFromNumber L C documents.numberRows companyId numbering raw =
      .ok document.id := by
  have hcanonical : canonicalizeDocumentNumberQuery L raw
      (codeUnits numbering) = .canonical document.number := by
    obtain ⟨sequence, hsequence⟩ :=
      documents.numbered document hdocument hcompany
    rw [hsequence, parts_of_formatDocumentNumber] at htyped ⊢
    exact canonicalizeDocumentNumberQuery_typed hL hnumbering
      (isPart_documentTypeCode _) (isPart_sequenceText sequence) htyped
  unfold documentIdFromNumber
  rw [hcanonical, documents.match_number hnumbering hdocument hcompany]
  exact onlyExact_of_mem _ _ (documents.numbersDiffer.candidates C _)
    (documents.mem_candidates_number C hdocument hcompany)

omit hL hnumbering

theorem documentIdFromNumber_eq_ok {raw : CodeUnits} {id : Uuid}
    (h : documentIdFromNumber L C documents.numberRows companyId numbering
      raw = .ok id) :
    ∃ document ∈ documents.rows, document.companyId = companyId ∧
      document.id = id ∧
      (canonicalizeDocumentNumberQuery L raw (codeUnits numbering) =
          .canonical document.number ∨
        ∃ sequence,
          canonicalizeDocumentNumberQuery L raw (codeUnits numbering) =
            .seq sequence ∧
          document.HasSequence numbering (sequenceOf sequence) ∧
          ∀ other ∈ documents.rows, other.companyId = companyId →
            other.HasSequence numbering (sequenceOf sequence) →
              other = document) := by
  unfold documentIdFromNumber at h
  dsimp only at h
  split at h
  next => cases h
  next found hfound =>
    obtain ⟨only, honly, hid⟩ := onlyExact_eq_ok h
    have hmem : only ∈ (loadDocumentNumberCandidates C documents.numberRows
        companyId found.condition).filter fun row =>
          found.isExact row.number := by
      rw [honly]
      exact List.mem_singleton_self _
    obtain ⟨hcandidate, hexact⟩ := List.mem_filter.mp hmem
    obtain ⟨hrow, hcompany, hcondition⟩ := mem_candidates hcandidate
    obtain ⟨document, hdocument, rfl⟩ := List.mem_map.mp hrow
    refine ⟨document, hdocument, hcompany, hid, ?_⟩
    cases hquery : canonicalizeDocumentNumberQuery L raw
        (codeUnits numbering) with
    | empty | none =>
        rw [hquery] at hfound
        cases hfound
    | canonical value =>
        rw [hquery] at hfound
        obtain ⟨literal, -, rfl⟩ := Option.map_eq_some_iff.mp hfound
        rw [of_decide_eq_true hexact]
        exact Or.inl rfl
    | seq sequence =>
        rw [hquery] at hfound
        refine Or.inr ⟨sequence, rfl,
          (documents.seq_iff hfound hdocument hcompany).mp hcondition, ?_⟩
        intro other hother hother_company hsequence
        -- It is a candidate as well, and there is only one.
        have hother_condition :=
          (documents.seq_iff hfound hother hother_company).mpr hsequence
        have hother_candidate := documents.mem_candidates_seq C hfound hother
          hother_company hother_condition
        have hother_exact : found.isExact other.number = true := by
          obtain ⟨numbers, -, rfl⟩ := Option.map_eq_some_iff.mp hfound
          rfl
        have hother_mem : other.toNumberRow ∈ [document.toNumberRow] := by
          rw [← honly]
          exact List.mem_filter.mpr ⟨hother_candidate, hother_exact⟩
        have hsame := List.mem_singleton.mp hother_mem
        exact documents.eq_of_number_eq hother hother_company hdocument
          hcompany (congrArg NumberRow.number hsame)

end Documents

theorem ordersExact {L : SearchLanguage} (hL : PlainLetters L) (C : Collation)
    {companyId : Uuid} {numbering : String}
    (hnumbering : IsPart (codeUnits numbering))
    (orders : OrderTable companyId numbering) : OrdersExact L C orders where
  full _ horder hcompany _ htyped :=
    orderIdFromNumber_typed hL C hnumbering orders horder hcompany htyped
  only _ _ h := orderIdFromNumber_eq_ok C orders h
  kept _ _ _ horder hcompany _ hliteral :=
    orders.mem_candidates C hnumbering horder hcompany hliteral

theorem documentsExact {L : SearchLanguage} (hL : PlainLetters L)
    (C : Collation) {companyId : Uuid} {numbering : String}
    (hnumbering : IsPart (codeUnits numbering))
    (documents : DocumentTable companyId numbering) :
    DocumentsExact L C documents where
  full _ hdocument hcompany _ htyped :=
    documentIdFromNumber_typed hL C hnumbering documents hdocument hcompany
      htyped
  only _ _ h := documentIdFromNumber_eq_ok C documents h
  kept raw found hfound document hdocument hcompany hexact hcondition := by
    cases hquery : canonicalizeDocumentNumberQuery L raw
        (codeUnits numbering) with
    | empty | none =>
        rw [hquery] at hfound
        cases hfound
    | canonical value =>
        rw [hquery] at hfound
        obtain ⟨literal, hliteral, rfl⟩ := Option.map_eq_some_iff.mp hfound
        obtain rfl := of_decide_eq_true hexact
        rw [documents.literal hnumbering hdocument hcompany] at hliteral
        obtain rfl := Option.some.inj hliteral
        exact documents.mem_candidates_number C hdocument hcompany
    | seq sequence =>
        rw [hquery] at hfound
        exact documents.mem_candidates_seq C hfound hdocument hcompany
          hcondition

/-- Whatever prefix the company has, references by number are exact. -/
theorem numberReferences_exact {L : SearchLanguage} (hL : PlainLetters L)
    (C : Collation) (names : Companies.NameLanguage) (name : String)
    (taken : Finset String) {numbering : String}
    (hnumbering : Companies.pickAvailablePrefix
      (Companies.derivePrefixBase names name) taken = .ok numbering)
    (companyId : Uuid) (orders : OrderTable companyId numbering)
    (documents : DocumentTable companyId numbering) :
    OrdersExact L C orders ∧ DocumentsExact L C documents := by
  have hpart := isPart_codeUnits
    (Companies.isPrefix_of_pickAvailablePrefix hnumbering)
  exact ⟨ordersExact hL C hpart orders, documentsExact hL C hpart documents⟩

/-! ## A company

One order and two documents, and a language in which all that is relied on
holds. -/

/-- Texts by their units. -/
def unitOrder : Collation where
  le a b := decide (a ≤ b)
  sorts :=
    { trans := fun _ _ _ hab hbc => decide_eq_true
        (List.le_trans (of_decide_eq_true hab) (of_decide_eq_true hbc))
      total := fun a b => by simpa using List.le_total a b }
  antisymm _ _ hab hba :=
    List.le_antisymm (of_decide_eq_true hab) (of_decide_eq_true hba)
  le_append _ _ := decide_eq_true List.le_append_left

theorem plainLetters_twoAlphabets : PlainLetters twoAlphabets where
  nfc hbefore _ hafter := ⟨_, _, hbefore, hafter, rfl⟩
  upper _ := rfl

/-- The language on plain names. -/
def plainNames : Companies.NameLanguage where
  nfkd := id
  isMark _ := false
  toUpperCase := id

/-- A company. -/
def kava : Uuid := ⟨"5b1f0a52-3a0e-4f0c-9d7e-000000000001", by decide +kernel⟩

/-- Its only order. -/
def kavaOrders : OrderTable kava "KA2" where
  rows := [⟨⟨"5b1f0a52-3a0e-4f0c-9d7e-000000000002", by decide +kernel⟩, kava,
    codeUnits "KA2-17Z992"⟩]
  numbers_differ := List.nodup_singleton _
  numbered row hrow _ := by
    obtain rfl := List.mem_singleton.mp hrow
    exact ⟨1, _, rfl, by decide +kernel⟩

/-- Its two documents, an invoice and a delivery note with one sequence. -/
def kavaDocuments : DocumentTable kava "KA2" where
  rows :=
    [⟨⟨⟨"5b1f0a52-3a0e-4f0c-9d7e-000000000003", by decide +kernel⟩, kava,
      codeUnits "KA2-РХ-000001"⟩, .payment_invoice⟩,
    ⟨⟨⟨"5b1f0a52-3a0e-4f0c-9d7e-000000000004", by decide +kernel⟩, kava,
      codeUnits "KA2-ВН-000001"⟩, .delivery_note⟩]
  numbers_differ := by decide +kernel
  numbered row hrow _ := by
    refine ⟨1, ?_⟩
    rcases List.mem_cons.mp hrow with rfl | hrow
    · rfl
    · obtain rfl := List.mem_singleton.mp hrow
      rfl

theorem numberReferences_exact_kava :
    OrdersExact twoAlphabets unitOrder kavaOrders ∧
      DocumentsExact twoAlphabets unitOrder kavaDocuments :=
  numberReferences_exact plainLetters_twoAlphabets unitOrder plainNames
    "KAVA" {"KA"} (by decide) kava kavaOrders kavaDocuments

end Shozee.References
