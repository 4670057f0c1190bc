import Mathlib.Data.List.Sort
import Shozee.Run.Lookup
import Shozee.Validation.EntityRef

/-!
# The products that the lines of an order name

A batch of lines is resolved with a few reads of the catalogue for all of them
(`catalog/src/services/resolve-line-references.ts`): the products named by id,
the products whose names the queries match, and the variants of those. A query
that finds no product is read as product words and variant words.

The rows are those of one company. What `ILIKE` and the search by name find is
the database's, and so is the order of the rows of a statement that does not
ask for one; an error of the database is thrown on and is not part of this.
-/

namespace Shozee.Catalog

open Shozee.Run Shozee.Validation

/-- What the two catalog tables know of a row's life; only active rows resolve.
-/
inductive Status
  | active
  | archived
deriving DecidableEq, Repr

/-- The columns of a product that the resolver selects. -/
structure ProductCandidate where
  id : CodeUnits
  name : CodeUnits
  status : Status
  currency : CodeUnits
deriving DecidableEq

/-- The columns of a variant that the resolver selects. -/
structure VariantCandidate where
  id : CodeUnits
  productId : CodeUnits
  name : CodeUnits
  status : Status
deriving DecidableEq

/-- The rows of a company; no two have one id, as the language compares it. -/
structure Tables (L : Language) where
  products : List ProductCandidate
  variants : List VariantCandidate
  product_ids : products.Pairwise fun row other =>
    L.localeCompare row.id other.id ≠ .eq
  variant_ids : variants.Pairwise fun row other =>
    L.localeCompare row.id other.id ≠ .eq

/-- What `referenceNameSearch` finds by a query. -/
structure NameSearch where
  strict : CodeUnits → Bool
  relaxed : CodeUnits → Bool
  canRelax : Bool

/-- What the store answers with: its case-insensitive comparison, the search
that it builds for a query, and the orders that rows come in. -/
structure Database where
  /-- `name ILIKE literal`, for a literal without `%`, `_` and `\`. -/
  ilike : CodeUnits → CodeUnits → Bool
  referenceNameSearch : CodeUnits → Option NameSearch
  /-- `ORDER BY name, id`. -/
  nameThenId : ProductCandidate → ProductCandidate → Bool
  rowOrder : RowOrder

/-- How a line asks for its variant when it gives no reference. -/
inductive VariantSelection
  | unspecified
  | base
  | reference (ref : EntityRef)
deriving DecidableEq

/-- One line of a request, with what names its product and its variant. -/
structure LineReferenceInput where
  product : EntityRef
  variant : Option EntityRef
  variantSelection : Option VariantSelection
deriving DecidableEq

/-- What a line resolves to: a product, and a variant unless the product is
taken on its own. -/
structure ResolvedLineReference where
  productId : CodeUnits
  productName : CodeUnits
  variantId : Option CodeUnits
  variantName : Option CodeUnits
deriving DecidableEq

/-! ## Errors

The conflicts of a line, with the texts that are shown and the options to
choose from. -/

/-- Why a line needs its user's choice. -/
inductive ConflictReason
  | variantRequired
  | ambiguous
  | unmatchedQuery
  | noActiveVariants
  | archived
deriving DecidableEq, Repr

/-- What the choice is about: a variant of a found product, or the product. -/
inductive ResolutionTarget
  | orderLineVariant (lineIndex : ℕ) (productId productName : CodeUnits)
  | orderLineProduct (lineIndex : ℕ) (query : CodeUnits)
      (productName : Option CodeUnits)
deriving DecidableEq

/-- One entry of the picker that a conflict offers. -/
structure LookupOption where
  id : CodeUnits
  label : CodeUnits
deriving DecidableEq

/-- A conflict as it goes to the client, with the picker and its message. -/
structure ResolutionConflict where
  reason : ConflictReason
  target : ResolutionTarget
  options : List LookupOption
  optionsTruncated : Bool
  clientMessage : CodeUnits
deriving DecidableEq

/-- The errors that are expected of a line. -/
inductive LineError
  | notFound
  | conflict (shown : ResolutionConflict)
deriving DecidableEq

/-- How a batch fails: with a line's own error, or as a line has no result. -/
inductive ResolutionError
  | line (error : LineError)
  | missedLine (index : ℕ)
deriving DecidableEq

/-- `classifyExpectedLineResolutionFailure`: whether the failure is terminal,
or one that a picker is shown for. -/
def LineError.terminal : LineError → Bool
  | .notFound => true
  | .conflict shown =>
      match shown.reason with
      | .archived | .noActiveVariants => true
      | .variantRequired | .ambiguous | .unmatchedQuery => false

/-- The messages put names between straight quotes. -/
def quoted (before name after : CodeUnits) : CodeUnits :=
  before ++ codeUnits "\"" ++ name ++ codeUnits "\"" ++ after

/-- A product with several variants and a line that names none. -/
def variantRequiredMessage (productName : CodeUnits) : CodeUnits :=
  quoted (codeUnits "Select a variant for ") productName (codeUnits ".")

/-- A line that asks for a variant of a product without active ones. -/
def noActiveVariantsMessage (productName : CodeUnits) : CodeUnits :=
  quoted [] productName (codeUnits " has no active variants.")

/-- A variant query that no active variant answers. -/
def unmatchedVariantQueryMessage (query productName : CodeUnits) : CodeUnits :=
  quoted (quoted (codeUnits "No variant matched ") query (codeUnits " for "))
    productName (codeUnits ".")

/-- A variant query that several active variants answer. -/
def ambiguousVariantQueryMessage (query productName : CodeUnits) : CodeUnits :=
  quoted (quoted (codeUnits "Multiple variants matched ") query
    (codeUnits " for ")) productName (codeUnits ".")

/-- A product query that several active products answer. -/
def ambiguousProductQueryMessage (query : CodeUnits) : CodeUnits :=
  quoted (codeUnits "Select a product matching ") query (codeUnits ".")

/-- A query whose only product is archived. -/
def archivedProductMessage (productName : CodeUnits) : CodeUnits :=
  quoted [] productName (codeUnits " is archived.")

/-- A query that several archived products answer and no active one. -/
def archivedProductQueryMessage (query : CodeUnits) : CodeUnits :=
  quoted (codeUnits "No active product matched ") query
    (codeUnits "; matching products are archived.")

/-! ## Candidates

How candidates are merged and picked, and how a text is split into product
words and variant words. -/

/-- A picker shows this many entries at most. -/
def entityLookupOptionsMax : ℕ := 20

/-- The rows that the name search fetches for a query. A product beyond them is
not looked at. -/
def resolveLineCandidateMax : ℕ := 100

/-- A query of more words than this is not split into a product and a variant.
-/
def productVariantSplitWordsMax : ℕ := 5

/-- `[...new Set(ids)]`: the first of each, in order. -/
def uniqueIds (ids : List CodeUnits) : List CodeUnits :=
  ids.foldl (fun unique id => if id ∈ unique then unique else unique ++ [id])
    []

/-- The literal of an `ILIKE`, with the three characters dropped that would be
read as a pattern. -/
def sanitizeLikeLiteral (query : CodeUnits) : Option CodeUnits :=
  let literal := query.filter fun unit => unit ∉ codeUnits "\\%_"
  if literal = [] then none else some literal

/-- A row is set in a map by id: it takes the place of the row with its id. -/
def setRow (rows : List ProductCandidate) (row : ProductCandidate) :
    List ProductCandidate :=
  if rows.any fun old => old.id = row.id then
    rows.map fun old => if old.id = row.id then row else old
  else rows ++ [row]

/-- `new Map` over both lists by id: a later row replaces an earlier one in its
place. -/
def mergeProductCandidates (primary extra : List ProductCandidate) :
    List ProductCandidate :=
  (primary ++ extra).foldl setRow []

/-- What the reads found for all queries of a batch: the exact rows of all of
them together, and the searched rows of each. -/
structure ProductQueryCandidates where
  exact : List ProductCandidate
  byQuery : Dict CodeUnits (List ProductCandidate)

/-- Whether a line leaves the variant open. -/
def isUnspecified : VariantSelection → Bool
  | .unspecified => true
  | _ => false

/-- A reference counts before the selection; neither is the unspecified
selection. -/
def variantSelectionOf (line : LineReferenceInput) : VariantSelection :=
  match line.variant with
  | some ref => .reference ref
  | none => line.variantSelection.getD .unspecified

section Resolve

variable (L : Language)

/-- The order of a product picker. The currency stands between the name and the
id. -/
def compareProductNameThenId (left right : ProductCandidate) : Ordering :=
  ((L.localeCompare left.name right.name).then
    (L.localeCompare left.currency right.currency)).then
      (L.localeCompare left.id right.id)

/-- The label of a product among the ones shown: its name, with the currency or
the id added as far as needed to tell it from the others. -/
def productOptionLabel (row : ProductCandidate)
    (siblings : List ProductCandidate) : CodeUnits :=
  let sameName := siblings.filter fun other => other.name = row.name
  if sameName.length = 1 then row.name
  else
    let sameCurrency := sameName.filter fun other =>
      other.currency = row.currency
    if sameCurrency.length = 1 then
      row.name ++ codeUnits " (" ++ row.currency ++ codeUnits ")"
    else
      row.name ++ codeUnits " (" ++ row.currency ++ codeUnits ", " ++ row.id ++
        codeUnits ")"

/-- The sorted entries of a product picker. -/
def productCandidateOptions (rows : List ProductCandidate) :
    List LookupOption :=
  let sorted := rows.mergeSort fun left right =>
    (compareProductNameThenId L left right).isLE
  sorted.map fun row => ⟨row.id, productOptionLabel row sorted⟩

/-- The options on a page, and whether there are more. -/
def entityLookupPage (options : List LookupOption) :
    List LookupOption × Bool :=
  (options.take entityLookupOptionsMax,
    entityLookupOptionsMax < options.length)

/-- The order of a variant picker. -/
def compareLabelThenId (left right : LookupOption) : Ordering :=
  (L.localeCompare left.label right.label).then
    (L.localeCompare left.id right.id)

/-- The first page of the sorted entries and whether some were left out. -/
def entityLookupPicker (options : List LookupOption) :
    List LookupOption × Bool :=
  entityLookupPage (options.mergeSort fun left right =>
    (compareLabelThenId L left right).isLE)

/-- The picker of a product conflict. -/
def pickerFromProducts (rows : List ProductCandidate) :
    List LookupOption × Bool :=
  entityLookupPage (productCandidateOptions L rows)

/-- The picker of a variant conflict, with variant names as labels. -/
def pickerFromVariants (rows : List VariantCandidate) :
    List LookupOption × Bool :=
  entityLookupPicker L (rows.map fun row => ⟨row.id, row.name⟩)

/-- More than one active product answers the query, and they are offered. -/
def productSelectionConflict (lineIndex : ℕ) (query : CodeUnits)
    (optionsSource : List ProductCandidate) : LineError :=
  let picker := pickerFromProducts L optionsSource
  .conflict ⟨.ambiguous, .orderLineProduct lineIndex query none, picker.1,
    picker.2, ambiguousProductQueryMessage query⟩

/-- Only archived products answer the query. There is nothing to pick. -/
def archivedProductConflict (lineIndex : ℕ) (query : CodeUnits)
    (uniqueProduct : Option ProductCandidate) : LineError :=
  .conflict ⟨.archived, .orderLineProduct lineIndex query
      (uniqueProduct.map ProductCandidate.name), [], false,
    match uniqueProduct with
    | none => archivedProductQueryMessage query
    | some product => archivedProductMessage product.name⟩

/-- The product is found but not the variant; without active variants the
picker is empty. -/
def variantSelectionConflict (reason : ConflictReason) (lineIndex : ℕ)
    (product : ProductCandidate) (optionsSource : List VariantCandidate)
    (clientMessage : CodeUnits) : LineError :=
  let picker := pickerFromVariants L optionsSource
  .conflict ⟨reason, .orderLineVariant lineIndex product.id product.name,
    if reason = .noActiveVariants then [] else picker.1,
    if reason = .noActiveVariants then false else picker.2, clientMessage⟩

/-- The rows that one query is judged on. The exact ones are compared again, as
they were read for all queries at once. -/
def candidatesForQuery (query : CodeUnits)
    (candidates : ProductQueryCandidates) : List ProductCandidate :=
  let normalized := normalizeReferenceQuery L query
  let needle := normalizeUniqueMatchQuery L query
  mergeProductCandidates
    (candidates.exact.filter fun row =>
      normalizeUniqueMatchQuery L row.name = needle)
    ((candidates.byQuery normalized).getD [])

/-- The judgement of a product query over its candidates. -/
def pickProduct (query : CodeUnits) (candidates : ProductQueryCandidates) :
    UniqueMatchResult ProductCandidate :=
  pickUniqueReferenceMatch L query (candidatesForQuery L query candidates)
    (fun row => [some row.name]) ProductCandidate.name

/-- The judgement of a variant query over the active variants, narrowed to
those that contain the query or inflect to it. -/
def pickVariant (query : CodeUnits) (active : List VariantCandidate) :
    UniqueMatchResult VariantCandidate :=
  pickUniqueReferenceMatch L query
    (active.filter fun row => fieldContainsQuery L (some row.name) query ||
      isInflectionOfName L query row.name)
    (fun row => [some row.name]) VariantCandidate.name

/-- The archived product that a message may name: the unique match, or the only
candidate. -/
def uniqueArchivedSubject : UniqueMatchResult ProductCandidate →
    Option ProductCandidate
  | .unique row => some row
  | .ambiguous _ [row] => some row
  | _ => none

/-- The product of a line. An id has to be read and active; a query is judged
over the active rows and then over the archived ones, which only changes the
error. -/
def resolveProductRef (ref : EntityRef) (lineIndex : ℕ)
    (byId : Dict CodeUnits ProductCandidate)
    (active archived : ProductQueryCandidates) :
    Except LineError ProductCandidate :=
  match ref with
  | .id id =>
      match byId id with
      | none => .error .notFound
      | some row => if row.status = .active then .ok row else .error .notFound
  | .query value =>
      match pickProduct L value active with
      | .unique row => .ok row
      | .ambiguous _ rows =>
          .error (productSelectionConflict L lineIndex value rows)
      | .none =>
          match pickProduct L value archived with
          | .none => .error .notFound
          | picked => .error (archivedProductConflict lineIndex value
              (uniqueArchivedSubject picked))

/-- The variant that a line refers to, among the variants of the product found.
-/
def resolveReferencedVariant (ref : EntityRef) (lineIndex : ℕ)
    (product : ProductCandidate) (owned active : List VariantCandidate) :
    Except LineError VariantCandidate :=
  match ref with
  | .id id =>
      match owned.find? fun variant => variant.id = id with
      | none => .error .notFound
      | some row => if row.status = .active then .ok row else .error .notFound
  | .query value =>
      if owned = [] then .error .notFound
      else if active = [] then
        .error (variantSelectionConflict L .noActiveVariants lineIndex product
          [] (noActiveVariantsMessage product.name))
      else
        match pickVariant L value active with
        | .none => .error (variantSelectionConflict L .unmatchedQuery lineIndex
            product active (unmatchedVariantQueryMessage value product.name))
        | .ambiguous _ rows => .error (variantSelectionConflict L .ambiguous
            lineIndex product rows
            (ambiguousVariantQueryMessage value product.name))
        | .unique row => .ok row

/-- Product words and variant words, cut at each blank, either of them first. -/
def productVariantSplits (query : CodeUnits) :
    List (CodeUnits × CodeUnits) :=
  let words := (normalizeReferenceQuery L query).splitOn blank
  if words.length < 2 ∨ productVariantSplitWordsMax < words.length then []
  else
    (List.range (words.length - 1)).flatMap fun index =>
      let head := [blank].intercalate (words.take (index + 1))
      let tail := [blank].intercalate (words.drop (index + 1))
      [(head, tail), (tail, head)]

/-- The variant that a query picks, if it picks one. -/
def uniqueVariantByQuery (query : CodeUnits)
    (active : List VariantCandidate) : Option VariantCandidate :=
  match pickVariant L query active with
  | .unique row => some row
  | _ => none

/-- What a split says, if it says one variant. -/
def splitHit (candidates : ProductQueryCandidates)
    (variants : List VariantCandidate) (split : CodeUnits × CodeUnits) :
    Option (ProductCandidate × VariantCandidate) :=
  match pickProduct L split.1 candidates with
  | .unique product =>
      (uniqueVariantByQuery L split.2 (variants.filter fun row =>
        row.productId = product.id && row.status = .active)).map (product, ·)
  | _ => none

/-- The hits by the ids of the product and the variant. -/
def setHit (hits : List (CodeUnits × ResolvedLineReference))
    (hit : ProductCandidate × VariantCandidate) :
    List (CodeUnits × ResolvedLineReference) :=
  let key := hit.1.id ++ codeUnits ":" ++ hit.2.id
  let found : ResolvedLineReference :=
    ⟨hit.1.id, hit.1.name, some hit.2.id, some hit.2.name⟩
  if hits.any fun old => old.1 = key then
    hits.map fun old => if old.1 = key then (key, found) else old
  else hits ++ [(key, found)]

/-- The variant that a query names together with its product. Every split is
tried both ways, hits of one variant count once, and only a single variant is
taken. -/
def resolveProductNamingItsVariant (query : CodeUnits)
    (candidates : ProductQueryCandidates) (variants : List VariantCandidate) :
    Option ResolvedLineReference :=
  let hits := ((productVariantSplits L query).filterMap
    (splitHit L candidates variants)).foldl setHit []
  match hits with
  | [only] => some only.2
  | _ => none

/-- The variant of a line whose product is found: the referenced one, none for
the base selection, else what the product's active variants leave open. -/
def resolveLineVariant (line : LineReferenceInput) (lineIndex : ℕ)
    (product : ProductCandidate) (variants : List VariantCandidate) :
    Except LineError ResolvedLineReference :=
  let owned := variants.filter fun row => row.productId = product.id
  let active := owned.filter fun row => row.status = .active
  match variantSelectionOf line with
  | .reference ref =>
      (resolveReferencedVariant L ref lineIndex product owned active).map
        fun variant =>
          ⟨product.id, product.name, some variant.id, some variant.name⟩
  | _ =>
      if owned = [] then .ok ⟨product.id, product.name, none, none⟩
      else if active = [] then
        .error (variantSelectionConflict L .noActiveVariants lineIndex product
          [] (noActiveVariantsMessage product.name))
      else
        .error (variantSelectionConflict L .variantRequired lineIndex product
          active (variantRequiredMessage product.name))

/-! ## Reads

The statements, each for all the lines of the batch. -/

variable (db : Database) (tables : Tables L)

/-- One read for the ids of all lines, active rows only. -/
def loadProductsById (ids : List CodeUnits) : List ProductCandidate :=
  if ids = [] then []
  else db.rowOrder.order (tables.products.filter fun row =>
    row.status = .active && ids.contains row.id)

/-- One read for the exact names of all queries. -/
def loadProductsByExactQuery (queries : List CodeUnits) (status : Status) :
    List ProductCandidate :=
  let literals := queries.filterMap fun query =>
    sanitizeLikeLiteral (normalizeReferenceQuery L query)
  if literals = [] then []
  else db.rowOrder.order (tables.products.filter fun row =>
    row.status = status && literals.any fun literal =>
      db.ilike row.name literal)

/-- The rows of one query: those that the strict search finds, or those of the
relaxed one where the strict search finds no product at all. -/
def searchRows (search : NameSearch) (status : Status) :
    List ProductCandidate :=
  let strictFindsNothing := !tables.products.any fun probe =>
    search.strict probe.name
  let found := tables.products.filter fun row =>
    row.status = status &&
      if search.canRelax then
        search.relaxed row.name && (search.strict row.name ||
          strictFindsNothing)
      else search.strict row.name
  (found.mergeSort db.nameThenId).take resolveLineCandidateMax

/-- One search a query, each with its own limit, kept apart by the query's
index. -/
def loadProductsByNameSearch (queries : List CodeUnits) (status : Status) :
    Dict CodeUnits (List ProductCandidate) :=
  let rows := db.rowOrder.order (queries.zipIdx.flatMap fun (query, index) =>
    match db.referenceNameSearch query with
    | none => []
    | some search => (searchRows L db tables search status).map (index, ·))
  rows.foldl (fun byQuery (index, row) =>
    match queries[index]? with
    | none => byQuery
    | some query =>
        byQuery.set query (((byQuery query).getD []) ++ [row])) Dict.empty

/-- The rows of the map for the queries that were asked. -/
def searchedRows (queries : List CodeUnits)
    (byQuery : Dict CodeUnits (List ProductCandidate)) :
    List ProductCandidate :=
  queries.flatMap fun query => (byQuery query).getD []

/-- One read for the variants of all products in play. -/
def loadVariantsForProducts (productIds : List CodeUnits) :
    List VariantCandidate :=
  if productIds = [] then []
  else db.rowOrder.order (tables.variants.filter fun row =>
    productIds.contains row.productId)

/-- The two reads that queries make for products of one status. -/
def loadCandidates (queries : List CodeUnits) (status : Status) :
    ProductQueryCandidates :=
  ⟨loadProductsByExactQuery L db tables queries status,
    loadProductsByNameSearch L db tables queries status⟩

/-! ## A batch

What is loaded first, and then the lines one by one. -/

/-- The id of a reference by id. -/
def productIdOf : EntityRef → Option CodeUnits
  | .id id => some id
  | .query _ => none

/-- The text of a reference by query. -/
def productQueryOf : EntityRef → Option CodeUnits
  | .id _ => none
  | .query value => some value

/-- What is loaded for the lines of a batch. -/
structure Loaded where
  byId : Dict CodeUnits ProductCandidate
  active : ProductQueryCandidates
  archived : ProductQueryCandidates
  variants : List VariantCandidate
  unfoundQueries : List CodeUnits
  split : ProductQueryCandidates
  splitVariants : List VariantCandidate

/-- The normalized product queries of a batch, each once. -/
def productQueriesOf (lines : List LineReferenceInput) : List CodeUnits :=
  uniqueIds (lines.filterMap fun line =>
    (productQueryOf line.product).map (normalizeReferenceQuery L))

/-- The texts of lines without a variant that find no product. -/
def unfoundQueriesOf (active archived : ProductQueryCandidates)
    (lines : List LineReferenceInput) : List CodeUnits :=
  uniqueIds (lines.filterMap fun line =>
    match line.product with
    | .id _ => none
    | .query value =>
        if isUnspecified (variantSelectionOf line) &&
            (candidatesForQuery L value active).isEmpty &&
            (candidatesForQuery L value archived).isEmpty then some value
        else none)

/-- The product parts of the queries that found no product. -/
def splitQueriesOf (unfoundQueries : List CodeUnits) : List CodeUnits :=
  uniqueIds (unfoundQueries.flatMap fun query =>
    (productVariantSplits L query).map (·.1))

/-- All reads of a batch, made before its first line is resolved: ids, queries,
the second round for split queries, and the variants. -/
def load (lines : List LineReferenceInput) : Loaded :=
  let productIds := uniqueIds (lines.filterMap fun line =>
    productIdOf line.product)
  let productQueries := productQueriesOf L lines
  let idRows := loadProductsById L db tables productIds
  let active := loadCandidates L db tables productQueries .active
  let archived := loadCandidates L db tables productQueries .archived
  let byId := idRows.foldl (fun byId row => byId.set row.id row) Dict.empty
  let activeQueryRows := mergeProductCandidates active.exact
    (searchedRows productQueries active.byQuery)
  let sellable := mergeProductCandidates idRows activeQueryRows
  let variants := loadVariantsForProducts L db tables
    (uniqueIds (sellable.map ProductCandidate.id))
  let unfoundQueries := unfoundQueriesOf L active archived lines
  let splitQueries := splitQueriesOf L unfoundQueries
  let split :=
    if splitQueries = [] then ⟨[], Dict.empty⟩
    else loadCandidates L db tables splitQueries .active
  let splitVariants := loadVariantsForProducts L db tables
    (uniqueIds ((mergeProductCandidates split.exact
      (searchedRows splitQueries split.byQuery)).map ProductCandidate.id))
  ⟨byId, active, archived, variants, unfoundQueries, split, splitVariants⟩

/-- What a text that found no product says, for every line with this text. -/
def namedVariant (loaded : Loaded) (line : LineReferenceInput) :
    Option ResolvedLineReference :=
  match line.product with
  | .id _ => none
  | .query value =>
      if loaded.unfoundQueries.contains value then
        resolveProductNamingItsVariant L value loaded.split
          loaded.splitVariants
      else none

/-- The product of a line, then its variant. -/
def resolveLine (loaded : Loaded) (line : LineReferenceInput)
    (lineIndex : ℕ) : Except LineError ResolvedLineReference :=
  match resolveProductRef L line.product lineIndex loaded.byId loaded.active
      loaded.archived with
  | .error error => .error error
  | .ok product => resolveLineVariant L line lineIndex product loaded.variants

/-- The locals of the loop over the lines. -/
structure Resolving where
  resolved : List (Option ResolvedLineReference)
  firstTerminal : Option LineError
  firstPicker : Option LineError

/-- One line of the loop. A conflict is kept as the first picker and any other
error as the first terminal one; the loop goes on after both. -/
def resolveNext (loaded : Loaded) (resolving : Resolving)
    (entry : LineReferenceInput × ℕ) : Resolving :=
  let (line, index) := entry
  match namedVariant L loaded line with
  | some found =>
      { resolving with resolved := resolving.resolved ++ [some found] }
  | none =>
      match resolveLine L loaded line index with
      | .ok found =>
          { resolving with resolved := resolving.resolved ++ [some found] }
      | .error error =>
          let resolved := resolving.resolved ++ [none]
          if error.terminal then
            { resolving with
              resolved := resolved
              firstTerminal := resolving.firstTerminal.or (some error) }
          else
            { resolving with
              resolved := resolved
              firstPicker := resolving.firstPicker.or (some error) }

/-- The results of a batch, one for each line. A terminal error of any line
goes before a conflict of an earlier one. -/
def resolveCatalogLineReferences (lines : List LineReferenceInput) :
    Except ResolutionError (List ResolvedLineReference) :=
  let loaded := load L db tables lines
  let resolving := lines.zipIdx.foldl (resolveNext L loaded) ⟨[], none, none⟩
  match resolving.firstTerminal, resolving.firstPicker with
  | some error, _ => .error (.line error)
  | none, some error => .error (.line error)
  | none, none =>
      resolving.resolved.zipIdx.mapM fun (line, index) =>
        match line with
        | some found => .ok found
        | none => .error (.missedLine index)

end Resolve

end Shozee.Catalog
