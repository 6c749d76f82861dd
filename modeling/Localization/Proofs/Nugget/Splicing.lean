import Localization.Proofs.Nugget.Closing
import Localization.Proofs.Nugget.Replacing
import Localization.Proofs.Scanning.Lines

/-
**Replacing nuggets is local.**

What takes the place of a nugget depends on the nugget alone, and whether nuggets stand in front of one does
not depend on what follows it: tokens that would reach over its end are not read. So a text can be cut
behind any of its nuggets, and its parts be replaced on their own.

* `Text.outside`, `Text.weave` — the parts of a text around spans, and parts with words between them.
* `Markup.Body.shorten`, `first?_of_longer` — a nugget is found although the text ends earlier.
* `Markup.Parted` — a text is cut behind one of its nuggets; `Parted.replace`.
* `Markup.replace_local` — what a text with its nuggets replaced is made of.
-/

namespace Localization

open Text

/-! ### Parts of a text -/

namespace Text

/-- The part of a text between two offsets. -/
def slice (text : List Char) (start stop : Nat) : List Char :=
  (splitBytes (stop - start) (splitBytes start text).2).1

/-- The parts of a text from an offset on: in front of the first span, between spans, and behind the last
one. -/
def outside (text : List Char) (start : Nat) : List Span → List (List Char)
  | [] => [(splitBytes start text).2]
  | span :: rest => slice text start span.start :: outside text span.stop rest

/-- Parts in order, with a word between each and the next. -/
def weave : List (List Char) → List (List Char) → List Char
  | part :: parts, word :: words => part ++ (word ++ weave parts words)
  | parts, _ => parts.flatten

/-- A text is split at an offset where one of its characters starts. -/
theorem splitBytes_byteLength (front back : List Char) :
    splitBytes (byteLength front) (front ++ back) = (front, back) := by
  induction front with
  | nil => cases back <;> rfl
  | cons c rest ih =>
    have size := c.utf8Size_pos
    rw [List.cons_append, byteLength_cons, splitBytes, if_neg (by omega), Nat.add_sub_cancel_left, ih]

theorem slice_append (front part back : List Char) :
    slice (front ++ (part ++ back)) (byteLength front) (byteLength front + byteLength part) = part := by
  rw [slice, splitBytes_byteLength, Nat.add_sub_cancel_left, splitBytes_byteLength]

end Text

namespace Markup

variable {markup : Markup} {dictionary : Dictionary} {text front back gap rest : List Char}
  {capture : Capture} {mark : Mark} {items : List (List Char)} {comment : Option (List Char)}

/-- The parts around the nuggets of a text are the gaps in front of them and the tail. -/
theorem outside_found (markup : Markup) (front back : List Char) :
    outside (front ++ back) (byteLength front)
        ((markup.spans (byteLength front) (markup.found back)).map (·.2)) =
      (markup.found back).map (·.1) ++ [markup.tail back] := by
  fun_induction markup.found back generalizing front with
  | case1 back missing =>
    rw [(found_of_none missing).2]
    simp [spans, outside, splitBytes_byteLength]
  | case2 back gap capture rest step _ ih =>
    have later := ih (front ++ gap ++ capture.source markup)
    rw [(found_of_some step).2, spans, List.map_cons, List.map_cons, outside, List.cons_append, ← later,
      first?_source step]
    simp only [List.append_assoc, slice_append, byteLength_append, Nat.add_assoc]

/-- The text of a nugget stands at its span. -/
theorem weave_slices (markup : Markup) (front back : List Char) :
    weave ((markup.found back).map (·.1) ++ [markup.tail back])
        ((markup.spans (byteLength front) (markup.found back)).map fun found =>
          slice (front ++ back) found.2.start found.2.stop) = back := by
  fun_induction markup.found back generalizing front with
  | case1 back missing =>
    rw [(found_of_none missing).2]
    simp [spans, weave]
  | case2 back gap capture rest step _ ih =>
    have later := ih (front ++ gap ++ capture.source markup)
    rw [(found_of_some step).2, spans, List.map_cons, List.map_cons, List.cons_append, weave]
    have source := first?_source step
    have here := slice_append (front ++ gap) (capture.source markup) rest
    have whole : front ++ back = front ++ gap ++ (capture.source markup ++ rest) := by simp [source]
    have same : front ++ back = front ++ gap ++ capture.source markup ++ rest := by simp [source]
    rw [byteLength_append] at here
    dsimp only
    rw [whole, here, ← whole, same]
    simp only [byteLength_append] at later
    rw [later]
    simp [source]

/-! ### The words for nuggets -/

/-- The words that take the place of nuggets, if all of them can be laid out. -/
def words (dictionary : Dictionary) (nuggets : List Nugget) : Except Overwide (List String) :=
  nuggets.mapM fun nugget => nugget.resolve dictionary

theorem words_cons (dictionary : Dictionary) (nugget : Nugget) (rest : List Nugget) :
    words dictionary (nugget :: rest) =
      (nugget.resolve dictionary).bind fun word => (words dictionary rest).map (word :: ·) := by
  rw [words, List.mapM_cons]
  cases nugget.resolve dictionary with
  | error overwide => rfl
  | ok word => cases more : words dictionary rest <;> rw [words] at more <;> rw [more] <;> rfl

theorem replaceParts_eq_weave (dictionary : Dictionary) (tail : List Char)
    (parts : List (List Char × Capture)) :
    replaceParts dictionary tail parts =
      (words dictionary (parts.map (·.2.nugget))).map fun words =>
        weave (parts.map (·.1) ++ [tail]) (words.map (·.toList)) := by
  induction parts with
  | nil => simp [replaceParts, words, weave, Except.map, pure, Except.pure]
  | cons part rest ih =>
    obtain ⟨gap, capture⟩ := part
    rw [replaceParts, ih, List.map_cons, List.map_cons, words_cons]
    cases capture.nugget.resolve dictionary with
    | error overwide => rfl
    | ok message =>
      cases words dictionary (rest.map (·.2.nugget)) with
      | error overwide => rfl
      | ok messages => simp [bind, Except.bind, Except.map, weave]

theorem replaceParts_append (dictionary : Dictionary) (tail : List Char)
    (first second : List (List Char × Capture)) :
    replaceParts dictionary tail (first ++ second) =
      (replaceParts dictionary [] first).bind fun front =>
        (replaceParts dictionary tail second).map (front ++ ·) := by
  induction first with
  | nil =>
    rw [List.nil_append]
    cases replaceParts dictionary tail second <;> rfl
  | cons part rest ih =>
    obtain ⟨gap, capture⟩ := part
    rw [List.cons_append, replaceParts, replaceParts, ih]
    cases capture.nugget.resolve dictionary with
    | error overwide => rfl
    | ok message =>
      cases replaceParts dictionary [] rest with
      | error overwide => rfl
      | ok front => cases replaceParts dictionary tail second <;> simp [bind, Except.bind, Except.map]

/-! ### Texts that end earlier -/

/-- No token starts in a part of a text if none does where the text goes on. -/
theorem clear_of_longer {tokens : List (List Char)} {part inside more : List Char}
    (clear : Clear tokens part (inside ++ more)) : Clear tokens part inside := by
  intro before after split solid token member starts
  refine clear before after split solid token member ?_
  rw [← List.append_assoc]
  exact starts.trans (List.prefix_append _ _)

/-- A mark that counts at a place counts there if the text ends earlier, but behind it. -/
theorem Stands.shorten {inside more : List Char} (stands : markup.Stands mark text (inside ++ more)) :
    markup.Stands mark (markup.token mark ++ inside) inside := by
  refine ⟨rfl, fun rival earlier starts => stands.first rival earlier ?_⟩
  rw [stands.here, ← List.append_assoc]
  exact starts.trans (List.prefix_append _ _)

/-- **The inside of a nugget does not depend on what follows its closing token.** -/
theorem Body.shorten (body : markup.Body items comment text (front ++ back)) :
    ∃ own, text = own ++ (front ++ back) ∧ markup.Body items comment (own ++ front) front := by
  generalize whole : front ++ back = rest at body
  induction body with
  | closing here =>
    subst whole
    exact ⟨markup.closing, here.here, .closing here.shorten⟩
  | @comment text words rest here clear =>
    subst whole
    refine ⟨markup.comment ++ (words ++ markup.closing), by simp [here.here, token], ?_⟩
    have stands := here
    rw [← List.append_assoc, ← List.append_assoc] at stands
    have short := stands.shorten
    rw [List.append_assoc] at short
    rw [← List.append_assoc] at clear
    simpa [token] using Body.comment short (clear_of_longer clear)
  | @item text item inside items comment rest here clear more ih =>
    obtain ⟨own, rfl, body⟩ := ih whole
    subst whole
    refine ⟨markup.delimiter ++ (item ++ own), by simp [here.here, token], ?_⟩
    have stands := here
    rw [← List.append_assoc, ← List.append_assoc] at stands
    have short := stands.shorten
    rw [List.append_assoc] at short
    rw [← List.append_assoc] at clear
    simpa [token] using Body.item short (clear_of_longer clear) body

/-- **A nugget is found although the text ends earlier, but behind it.** -/
theorem first?_of_longer (found : markup.first? text = some (gap, capture, front ++ back)) :
    markup.first? (gap ++ (capture.source markup ++ front)) = some (gap, capture, front) := by
  obtain ⟨inside, rfl, heads, passed⟩ := first?_eq_some_iff.mp found
  have source := heads.source
  subst source
  obtain ⟨body, split, clear, captured⟩ := heads
  obtain ⟨own, rfl, short⟩ := captured.shorten
  have ends : capture.source markup ++ front = markup.opening ++ (capture.id ++ (own ++ front)) := by
    have same : capture.source markup ++ front ++ back =
        markup.opening ++ (capture.id ++ (own ++ front)) ++ back := by simpa using split
    exact List.append_cancel_right same
  refine first?_eq_some_iff.mpr ⟨_, rfl, ⟨own ++ front, ends, ?_, short⟩, ?_⟩
  · rw [← List.append_assoc] at clear
    exact clear_of_longer clear
  · rw [← List.append_assoc] at passed
    exact clear_of_longer passed

/-! ### Texts that are cut behind a nugget -/

/-- A text is cut behind some of its nuggets. -/
inductive Parted (markup : Markup) : (text front back : List Char) → Prop
  | start (text : List Char) : Parted markup text [] text
  | next {text gap rest front back : List Char} {capture : Capture}
      (found : markup.first? text = some (gap, capture, rest)) (parted : Parted markup rest front back) :
    Parted markup text (gap ++ (capture.source markup ++ front)) back

theorem Parted.append (parted : markup.Parted text front back) : text = front ++ back := by
  induction parted with
  | start text => rfl
  | next found _ ih => rw [first?_source found, ih]; simp

theorem found_nil (markup : Markup) : markup.found [] = [] ∧ markup.tail [] = [] :=
  found_of_none rfl

/-- The nuggets of a text that is cut behind some of them are those of its parts. -/
theorem Parted.found (parted : markup.Parted text front back) :
    markup.found text = markup.found front ++ markup.found back ∧ markup.tail text = markup.tail back ∧
      markup.tail front = [] := by
  induction parted with
  | start text => exact ⟨by rw [(found_nil markup).1]; rfl, rfl, (found_nil markup).2⟩
  | next found parted ih =>
    obtain ⟨nuggets, tail, none⟩ := ih
    rw [parted.append] at found
    have short := first?_of_longer found
    rw [(found_of_some found).1, (found_of_some found).2, (found_of_some short).1, (found_of_some short).2,
      ← parted.append, nuggets, tail]
    exact ⟨rfl, rfl, none⟩

/-- **A text that is cut behind some of its nuggets is replaced part by part.** -/
theorem Parted.replace {text : String} (parted : markup.Parted text.toList front back)
    (dictionary : Dictionary) :
    markup.replace dictionary text =
      (markup.replace dictionary (.ofList front)).bind fun first =>
        (markup.replace dictionary (.ofList back)).map (first ++ ·) := by
  obtain ⟨nuggets, tail, none⟩ := parted.found
  unfold Markup.replace
  rw [String.toList_ofList, String.toList_ofList, nuggets, tail, none, replaceParts_append]
  cases replaceParts dictionary [] (markup.found front) with
  | error overwide => rfl
  | ok first =>
    cases replaceParts dictionary (markup.tail back) (markup.found back) with
    | error overwide => rfl
    | ok second => exact congrArg Except.ok (String.ofList_append ..)

/-- A text can be cut where one of its nuggets ends. -/
theorem parted_of_mem_scanned {occurrence : Occurrence} (member : occurrence ∈ markup.scanned front text) :
    ∃ passed rest, markup.Parted text passed rest ∧
      byteLength (front ++ passed) = occurrence.span.stop := by
  fun_induction markup.found text generalizing front with
  | case1 text missing =>
    rw [scanned_of_none missing] at member
    cases member
  | case2 text gap capture rest step _ ih =>
    rw [scanned_of_some step] at member
    rcases List.mem_cons.mp member with rfl | later
    · exact ⟨_, rest, .next step (.start rest), by simp⟩
    · obtain ⟨passed, last, parted, reached⟩ := ih later
      exact ⟨_, last, .next step parted, by simpa using reached⟩

/-! ### Texts with their nuggets replaced -/

/-- A text without opening token has no nugget. -/
theorem replace_of_unopened {text : String} (unopened : ¬ markup.opening <:+: text.toList)
    (dictionary : Dictionary) : markup.replace dictionary text = .ok text := by
  have missing : markup.first? text.toList = none := by
    rw [first?, (split?_eq_none_iff markup.opening_ne_nil).mpr unopened]
    rfl
  rw [replace, (found_of_none missing).1, (found_of_none missing).2]
  exact congrArg Except.ok String.ofList_toList

/-- The parts of a text around nuggets. -/
def around (text : List Char) (occurrences : List Occurrence) : List (List Char) :=
  outside text 0 (occurrences.map (·.span))

theorem around_scanned (markup : Markup) (text : List Char) :
    around text (markup.scanned [] text) = (markup.found text).map (·.1) ++ [markup.tail text] := by
  rw [around, scanned, List.map_map]
  exact outside_found markup [] text

theorem nuggets_scanned (markup : Markup) (front back : List Char) :
    (markup.scanned front back).map (·.nugget) = (markup.found back).map (·.2.nugget) := by
  fun_induction markup.found back generalizing front with
  | case1 back missing => rw [scanned_of_none missing]; rfl
  | case2 back gap capture rest step _ ih =>
    rw [scanned_of_some step, List.map_cons, List.map_cons, ih]

/-- **Replacing nuggets is local.** The output has, in order, the parts of the text around its nuggets as they
are, and between them a word for each nugget, which depends on the nugget alone. The text can be cut behind
any of its nuggets, and its parts be replaced on their own. A text without opening token stays as it is. -/
theorem replace_local (markup : Markup) (dictionary : Dictionary) (text : String) :
    ∃ occurrences : List Occurrence, markup.parse .response text = occurrences.map .ok ∧
      weave (around text.toList occurrences)
          (occurrences.map fun found => slice text.toList found.span.start found.span.stop) = text.toList ∧
      markup.replace dictionary text =
        (words dictionary (occurrences.map (·.nugget))).map (fun words =>
          String.ofList (weave (around text.toList occurrences) (words.map (·.toList)))) ∧
      (∀ occurrence ∈ occurrences, ∃ front back, text.toList = front ++ back ∧
        byteLength front = occurrence.span.stop ∧
        markup.replace dictionary text =
          (markup.replace dictionary (.ofList front)).bind fun first =>
            (markup.replace dictionary (.ofList back)).map (first ++ ·)) ∧
      (¬ markup.opening <:+: text.toList → markup.replace dictionary text = .ok text) := by
  refine ⟨markup.scanned [] text.toList, parse_response_eq markup text, ?_, ?_,
    fun occurrence member => ?_, fun unopened => replace_of_unopened unopened dictionary⟩
  · rw [around_scanned, scanned, List.map_map]
    exact weave_slices markup [] text.toList
  · rw [around_scanned, nuggets_scanned, replace, replaceParts_eq_weave]
    cases words dictionary ((markup.found text.toList).map (·.2.nugget)) <;> rfl
  · obtain ⟨front, back, parted, reached⟩ := parted_of_mem_scanned member
    exact ⟨front, back, parted.append, reached, parted.replace dictionary⟩

end Markup

end Localization
