import Localization.Proofs.Catalog.Tidy

/-
**Standard headers, written over and over.**

A saved catalog gets the standard fields on top of the header that is read from its file. This
header is the same every time, unless the name of the culture has several lines: those after the
first one are read as fields of their own, and each saving adds them again.

* `strayFields` — the fields that a culture's name brings in.
* `standard_reread` — the standard header on top of one that was written and read.
* `header_of_parse_render` — the header of a written catalog, whatever its items are read as.
* `language_of_render_eq` — equal texts name the same culture, and a template names none.
-/

namespace Localization

open Text

namespace Catalog

/-! ### Fields that are read again -/

/-- A field that saving a catalog does not set. -/
abbrev isKept (field : String × String) : Bool := !Header.isStandard field.1

/-- The fields on the lines of a culture's name after the first one, as they come to stand behind
the language of a catalog. -/
def strayFields (culture : String) : List (String × String) :=
  ((cutLines culture.toList).tail.filterMap Header.field?).filter isKept

/-- A culture whose name is on one line brings in no fields. -/
theorem strayFields_of_clean {culture : String} (clean : '\n' ∉ culture.toList) :
    strayFields culture = [] := by
  rw [strayFields, cutLines_of_clean clean]
  rfl

/-- Fields as they are read back. -/
def rereadFields (fields : List (String × String)) : List (String × String) :=
  (fields.flatMap fun field => cutLines (fieldChars field)).filterMap Header.field?

theorem rereadFields_append (first second : List (String × String)) :
    rereadFields (first ++ second) = rereadFields first ++ rereadFields second := by
  rw [rereadFields, List.flatMap_append, List.filterMap_append]
  rfl

theorem rereadFields_of_isField {fields : List (String × String)}
    (good : ∀ field ∈ fields, IsField field) : rereadFields fields = fields := by
  have same : rereadHeader ⟨[], fields⟩ = ⟨[], fields⟩ :=
    rereadHeader_of_canonical (List.forall_mem_nil _) good
  exact congrArg Header.fields same

/-- A text in front stays with the first line. -/
theorem cutLines_append (front : List Char) (clean : '\n' ∉ front) (text : List Char) :
    ∃ first, cutLines (front ++ text) = (front ++ first) :: (cutLines text).tail := by
  induction front with
  | nil =>
    cases parts : cutLines text with
    | nil => exact absurd parts (pieces_ne_nil _ text)
    | cons first others => exact ⟨first, parts⟩
  | cons c rest ih =>
    obtain ⟨first, same⟩ := ih fun member => clean (List.mem_cons_of_mem c member)
    have solid : c ≠ '\n' := by
      rintro rfl
      exact clean List.mem_cons_self
    refine ⟨first, ?_⟩
    rw [cutLines] at same
    rw [List.cons_append, cutLines, pieces, if_neg (by simpa using solid), same]
    rfl

theorem colon_not_mem_languageField : ':' ∉ Header.languageField.toList := by decide

/-- The field of the language is read back as a field of that name, and as those that come in with
the lines of the culture's name. -/
theorem filter_rereadFields_language (culture : String) :
    (rereadFields [(Header.languageField, culture)]).filter isKept = strayFields culture := by
  let name := Header.languageField.toList
  obtain ⟨first, lines⟩ := cutLines_append (name ++ [':', ' ']) (by decide) culture.toList
  have whole : fieldChars (Header.languageField, culture) = name ++ [':', ' '] ++ culture.toList := by
    simp [fieldChars, name]
  have parts : cut (· = ':') (name ++ [':', ' '] ++ first) = some (name, ' ' :: first) := by
    rw [List.append_assoc]
    exact cut_colon colon_not_mem_languageField (' ' :: first)
  have named : trim name = name := by decide
  have solid : name.isEmpty = false := by decide
  have read : Header.field? (name ++ [':', ' '] ++ first) =
      some (Header.languageField, String.ofList (trim (' ' :: first))) := by
    unfold Header.field?
    rw [parts, Option.bind_eq_bind, Option.bind_some]
    simp only [named, solid, Bool.false_eq_true, if_false]
    rfl
  have dropped : ¬ isKept (Header.languageField, String.ofList (trim (' ' :: first))) = true := by
    show ¬ (!Header.isStandard Header.languageField) = true
    decide
  rw [rereadFields, List.flatMap_singleton, whole, lines, List.filterMap_cons_some read,
    List.filter_cons_of_neg dropped]
  rfl

theorem isField_of_mem_fixedFields : ∀ field ∈ Header.fixedFields, IsField field := by decide

theorem filter_fixedFields : Header.fixedFields.filter isKept = [] := by decide

variable {header : Header}

/-- The fields that a header keeps when it is written with a language, read and filtered again. -/
theorem filter_rereadHeader (tidy : TidyHeader header) (language : Option String) :
    (rereadHeader (Header.standard language header)).fields.filter isKept =
      language.toList.flatMap strayFields ++ header.fields.filter isKept := by
  have kept : ∀ field ∈ header.fields.filter isKept, IsField field := fun field member =>
    tidy.fields field (List.mem_filter.mp member).1
  have fields : (rereadHeader (Header.standard language header)).fields =
      Header.fixedFields ++ rereadFields (language.toList.map (Header.languageField, ·)) ++
        header.fields.filter isKept := by
    calc (rereadHeader (Header.standard language header)).fields
        = rereadFields (Header.fixedFields ++ language.toList.map (Header.languageField, ·) ++
            header.fields.filter isKept) := rfl
      _ = _ := by
        rw [rereadFields_append, rereadFields_append, rereadFields_of_isField isField_of_mem_fixedFields,
          rereadFields_of_isField kept]
  have named : (rereadFields (language.toList.map (Header.languageField, ·))).filter isKept =
      language.toList.flatMap strayFields := by
    cases language with
    | none => rfl
    | some culture =>
      rw [Option.toList_some, List.flatMap_singleton]
      exact filter_rereadFields_language culture
  rw [fields, List.filter_append, List.filter_append, filter_fixedFields, named, List.nil_append,
    List.filter_filter]
  simp only [Bool.and_self]

/-- **A standard header on top of one that was written and read again.** The comments are the same,
and the fields are but for those that the culture's name brings in. -/
theorem standard_reread (tidy : TidyHeader header) (language other : Option String) :
    Header.standard other (rereadHeader (Header.standard language header)) =
      ⟨header.comments, Header.fixedFields ++ other.toList.map (Header.languageField, ·) ++
        (language.toList.flatMap strayFields ++ header.fields.filter isKept)⟩ := by
  have comments : (rereadHeader (Header.standard language header)).comments = header.comments :=
    map_rereadComment tidy.comments
  rw [Header.standard, filter_rereadHeader tidy, comments]

/-- The header that is read of a written one is tidy. -/
theorem TidyHeader.reread (tidy : TidyHeader header) (language : Option String) :
    TidyHeader (rereadHeader (Header.standard language header)) := by
  have legible : (⟨Header.standard language header, .empty⟩ : Catalog).Legible :=
    { keyed := fun _ _ found => nomatch found
      comments := tidy.newline
      items := List.forall_mem_nil _ }
  exact tidyHeader_of_parse legible.parse_render

/-- **The header of a template settles when it is written once.** -/
theorem standard_reread_template (tidy : TidyHeader header) :
    Header.standard none (rereadHeader (Header.standard none header)) = Header.standard none header := by
  rw [standard_reread tidy]
  rfl

/-! ### Headers of written catalogs -/

/-- The lines of the items of a file, each item behind a blank line. -/
def body (items : Items) : List (List Char) :=
  (writtenItems items).flatMap fun item => [] :: (itemLines item).flatMap cutLines

/-- **The header of a written catalog is read back**, whatever its items are read as. -/
theorem header_of_parse_render {items : Items} {catalog : Catalog}
    (comments : ∀ comment ∈ header.comments, '\n' ∉ comment.toList)
    (parsed : parse (render ⟨header, items⟩) = .ok catalog) :
    catalog.header = rereadHeader header := by
  rw [parse_render_eq, cutLines_lines] at parsed
  obtain ⟨closed, last, all, rfl⟩ := reads_of_parseLines parsed
  obtain ⟨first, next, others, here, later, rfl⟩ := all.of_append
  obtain ⟨rfl, rfl⟩ := here.unique (reads_headerLines comments)
  -- The entry of the header is the last one, or a blank line closes it before the first item.
  have heads : ∃ rest, [] ++ others ++ [last] = headerEntry header :: rest := by
    cases written : writtenItems items with
    | nil =>
      rw [written] at later
      obtain ⟨rfl, rfl⟩ := later.unique (Entry.Reads.nil _)
      exact ⟨[], rfl⟩
    | cons item rest =>
      rw [written, List.flatMap_cons, List.cons_append, ← List.singleton_append] at later
      obtain ⟨blank, opened, more, ended, -, rfl⟩ := later.of_append
      obtain ⟨words, said, taken⟩ := ended.of_single
      rw [Line.ofChars_nil] at said
      cases said
      cases taken
      exact ⟨more ++ [last], rfl⟩
  obtain ⟨rest, whole⟩ := heads
  have named : (headerEntry header).isHeader = true := rfl
  rw [ofEntries, whole, List.find?_cons_of_pos named]
  exact header_headerEntry header

/-! ### Texts that are equal -/

theorem quote_inj {first second : List Char} (same : Quoted.quote first = Quoted.quote second) :
    first = second := by
  have read := congrArg Quoted.unquote same
  rw [Quoted.unquote_quote, Quoted.unquote_quote] at read
  exact Except.ok.inj read

theorem fieldLine_inj {first second : String × String} (firstColon : ':' ∉ first.1.toList)
    (secondColon : ':' ∉ second.1.toList) (same : fieldLine first = fieldLine second) :
    first = second := by
  have chars : fieldChars first ++ ['\n'] = fieldChars second ++ ['\n'] := by
    have inner := quote_inj same
    simpa [fieldChars] using inner
  have parts := congrArg (cut (· = ':')) (List.append_cancel_right chars)
  rw [fieldChars, fieldChars, cut_colon firstColon, cut_colon secondColon] at parts
  simp only [Option.some.injEq, Prod.mk.injEq, List.cons.injEq, true_and, String.toList_inj] at parts
  exact Prod.ext parts.1 parts.2

variable {first second : Catalog}

/-- Catalogs of one text have the same lines. -/
theorem lines_of_render_eq (firstClean : ∀ comment ∈ first.header.comments, '\n' ∉ comment.toList)
    (secondClean : ∀ comment ∈ second.header.comments, '\n' ∉ comment.toList)
    (same : render first = render second) :
    headerLines first.header ++ body first.items = headerLines second.header ++ body second.items := by
  have cut (catalog : Catalog) (clean : ∀ comment ∈ catalog.header.comments, '\n' ∉ comment.toList) :
      cutLines (render catalog).toList = headerLines catalog.header ++ body catalog.items ++ [[]] := by
    rw [render, String.toList_ofList, renderChars, cutLines_flatMap, cutLines_lines,
      flatMap_cutLines (newline_not_mem_headerLines clean)]
    rfl
  have lines := congrArg (fun text => cutLines text.toList) same
  rw [cut first firstClean, cut second secondClean] at lines
  exact List.append_cancel_right lines

/-- Catalogs of one text have the same lines behind the comments of their headers. -/
theorem fieldLines_of_render_eq
    (firstClean : ∀ comment ∈ first.header.comments, '\n' ∉ comment.toList)
    (secondClean : ∀ comment ∈ second.header.comments, '\n' ∉ comment.toList)
    (same : render first = render second) :
    first.header.fields.map fieldLine ++ body first.items =
      second.header.fields.map fieldLine ++ body second.items := by
  have dropped (header : Header) (rest : List (List Char)) :
      (headerLines header ++ rest).dropWhile (fun line => line.head? = some '#') =
        (Keyword.id.chars ++ ' ' :: Quoted.quote []) ::
          (Keyword.localized.chars ++ ' ' :: Quoted.quote []) :: (header.fields.map fieldLine ++ rest) := by
    have comments : ∀ line ∈ header.comments.map (commentLine ['#']),
        decide (line.head? = some '#') = true := by
      intro line member
      obtain ⟨comment, -, rfl⟩ := List.mem_map.mp member
      unfold commentLine
      split <;> rfl
    rw [headerLines, List.append_assoc, List.append_assoc, List.dropWhile_append_of_pos comments]
    exact List.dropWhile_cons_of_neg (by decide)
  have lines := congrArg (List.dropWhile fun line => line.head? = some '#')
    (lines_of_render_eq firstClean secondClean same)
  rw [dropped, dropped] at lines
  exact (List.cons.inj (List.cons.inj lines).2).2

variable {language other : Option String} {firstHeader secondHeader : Header} {items others : Items}

theorem standardLines_of_render_eq (firstTidy : TidyHeader firstHeader)
    (secondTidy : TidyHeader secondHeader)
    (same : render ⟨Header.standard language firstHeader, items⟩ =
      render ⟨Header.standard other secondHeader, others⟩) :
    (language.toList.map (Header.languageField, ·)).map fieldLine ++
        ((firstHeader.fields.filter isKept).map fieldLine ++ body items) =
      (other.toList.map (Header.languageField, ·)).map fieldLine ++
        ((secondHeader.fields.filter isKept).map fieldLine ++ body others) := by
  have lines := fieldLines_of_render_eq
    firstTidy.newline secondTidy.newline same
  simp only [Header.standard, List.map_append, List.append_assoc] at lines
  exact List.append_cancel_left lines

/-- A text that names a culture in its header is none that names no culture. -/
theorem render_ne_of_language {culture : String} (firstTidy : TidyHeader firstHeader)
    (secondTidy : TidyHeader secondHeader) :
    render ⟨Header.standard (some culture) firstHeader, items⟩ ≠
      render ⟨Header.standard none secondHeader, others⟩ := by
  intro same
  have lines := standardLines_of_render_eq firstTidy secondTidy same
  -- The line of the language is that of a kept field, or it is the blank line before an item.
  cases kept : secondHeader.fields.filter isKept with
  | cons field rest =>
    rw [kept] at lines
    have member : field ∈ secondHeader.fields.filter isKept := kept ▸ List.mem_cons_self
    have equal : (Header.languageField, culture) = field :=
      fieldLine_inj colon_not_mem_languageField
        (secondTidy.fields field (List.mem_filter.mp member).1).colon (List.cons.inj lines).1
    have stays : (!Header.isStandard field.1) = true := (List.mem_filter.mp member).2
    have standard : (!Header.isStandard Header.languageField) = false := by decide
    rw [← equal, standard] at stays
    cases stays
  | nil =>
    rw [kept] at lines
    cases written : writtenItems others with
    | nil =>
      rw [body, body, written] at lines
      cases lines
    | cons item rest =>
      rw [body, body, written] at lines
      cases lines

/-- **Catalogs of one text name the same culture.** -/
theorem language_of_render_eq (firstTidy : TidyHeader firstHeader)
    (secondTidy : TidyHeader secondHeader)
    (same : render ⟨Header.standard language firstHeader, items⟩ =
      render ⟨Header.standard other secondHeader, others⟩) : language = other := by
  cases language with
  | none =>
    cases other with
    | none => rfl
    | some culture => exact absurd same.symm (render_ne_of_language secondTidy firstTidy)
  | some culture =>
    cases other with
    | none => exact absurd same (render_ne_of_language firstTidy secondTidy)
    | some name =>
      have lines := standardLines_of_render_eq firstTidy secondTidy same
      have equal := fieldLine_inj colon_not_mem_languageField colon_not_mem_languageField
        (List.cons.inj lines).1
      rw [(Prod.mk.inj equal).2]

end Catalog

end Localization
