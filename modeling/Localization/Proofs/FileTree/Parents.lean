import Localization.Proofs.FileTree.Places

/-
**The directories above a file that is found.**

The parent of a path is spelled by the text in front of one of its slashes, so a path that is found
leads through its parent, and storing a file there makes no directory.

* `Path.parent?_spelled` — the text of the parent of a path.
* `Leads.front` — a path leads through the parts at its front.
* `createParents_of_resolve`, `store_of_resolve` — a file that is found can be stored again.
* `resolve_base` — the directory that a name is joined to is there, if the path is found.
-/

namespace Localization

open Text

namespace Path

/-! ### Texts of paths -/

/-- The text of parts between slashes. -/
def slashed (parts : List (List Char)) : List Char := ['/'].intercalate parts

theorem slashed_singleton (part : List Char) : slashed [part] = part :=
  List.intercalate_singleton

theorem slashed_cons (part : List Char) {parts : List (List Char)} (more : parts ≠ []) :
    slashed (part :: parts) = part ++ '/' :: slashed parts := by
  rw [slashed, List.intercalate_cons_of_ne_nil more, List.append_assoc]
  rfl

theorem slashed_append {front back : List (List Char)} (first : front ≠ []) (second : back ≠ []) :
    slashed (front ++ back) = slashed front ++ '/' :: slashed back := by
  induction front with
  | nil => exact absurd rfl first
  | cons part rest ih =>
    by_cases last : rest = []
    · rw [last, List.singleton_append, slashed_cons part second, slashed_singleton]
    · have more : rest ++ back ≠ [] := by simp [last]
      rw [List.cons_append, slashed_cons part more, slashed_cons part last, ih last, List.append_assoc,
        List.cons_append]

theorem slashed_pieces (text : List Char) : slashed (pieces isSlash text) = text := by
  induction text with
  | nil => rfl
  | cons c rest ih =>
    rw [pieces]
    split
    · rename_i slash
      rw [isSlash, beq_iff_eq] at slash
      rw [slashed_cons [] (pieces_ne_nil _ _), ih, slash]
      rfl
    · cases parts : pieces isSlash rest with
      | nil => exact absurd parts (pieces_ne_nil _ _)
      | cons first others =>
        rw [parts] at ih
        rw [← ih]
        exact List.intercalate_cons_cons_left

/-- The text of a path by its start. -/
def spelled : Option Component → List (List Char) → List Char
  | some .root, parts => '/' :: slashed parts
  | some _, parts => slashed (['.'] :: parts)
  | none, parts => slashed parts

/-- A component that a path can start with. -/
def IsHead (first : Option Component) : Prop :=
  first = none ∨ first = some .root ∨ first = some .current

theorem start_spelled (path : Path) :
    IsHead path.start.1 ∧ path.text.toList = spelled path.start.1 path.start.2 ∧
      ∀ part ∈ path.start.2, '/' ∉ part := by
  have plain {part : List Char} (member : part ∈ pieces isSlash path.text.toList) : '/' ∉ part :=
    fun inside => absurd (mem_of_mem_pieces member inside).1 (by decide)
  have whole := slashed_pieces path.text.toList
  unfold start
  cases parts : pieces isSlash path.text.toList with
  | nil => exact absurd parts (pieces_ne_nil _ _)
  | cons first rest =>
    have later : ∀ part ∈ rest, '/' ∉ part := fun part member =>
      plain (parts ▸ List.mem_cons_of_mem first member)
    dsimp only
    split
    · rename_i absolute
      refine ⟨.inr (.inl rfl), ?_, later⟩
      rw [isAbsolute, decide_eq_true_eq] at absolute
      cases text : path.text.toList with
      | nil =>
        rw [text] at absolute
        cases absolute
      | cons c others =>
        rw [text] at absolute parts
        cases absolute
        rw [pieces, if_pos (by decide)] at parts
        have same : rest = pieces isSlash others := (List.cons.inj parts).2.symm
        rw [same, spelled, slashed_pieces]
    · split
      · rename_i dot
        rw [parts, dot] at whole
        exact ⟨.inr (.inr rfl), whole.symm, later⟩
      · rw [parts] at whole
        exact ⟨.inl rfl, whole.symm, fun part member => plain (parts ▸ member)⟩

theorem toList_ofParts {first : Option Component} (head : IsHead first) (parts : List (List Char)) :
    (ofParts first parts).text.toList = spelled first parts := by
  have body : (String.ofList (['/'].intercalate parts)).toList = slashed parts := String.toList_ofList
  rcases head with rfl | rfl | rfl
  · exact body
  · rw [ofParts, spelled, String.toList_append, body]
    rfl
  · by_cases single : parts = []
    · rw [single]
      rfl
    · have text : (ofParts (some .current) parts).text =
          "." ++ "/" ++ String.ofList (['/'].intercalate parts) := by
        unfold ofParts
        dsimp only
        rw [if_neg single]
        rfl
      have whole : spelled (some .current) parts = slashed (['.'] :: parts) := rfl
      rw [text, whole, slashed_cons _ single, String.toList_append, body]
      rfl

/-- The parts that do not count are behind the others, the last of which does. -/
theorem dropEnd_append (parts : List (List Char)) :
    (∃ void, parts = dropEnd parts ++ void) ∧
      ∀ last ∈ (dropEnd parts).getLast?, isVoid last = false := by
  constructor
  · refine ⟨(parts.reverse.takeWhile isVoid).reverse, ?_⟩
    rw [dropEnd, ← List.reverse_append, List.takeWhile_append_dropWhile, List.reverse_reverse]
  · intro last found
    rw [dropEnd, List.getLast?_reverse, Option.mem_def] at found
    have head := List.head?_dropWhile_not isVoid parts.reverse
    rw [found] at head
    simpa using head

theorem spelled_append {first : Option Component} {front back : List (List Char)}
    (solid : front ≠ []) (more : back ≠ []) :
    spelled first (front ++ back) = spelled first front ++ '/' :: slashed back := by
  unfold spelled
  split
  · rw [slashed_append solid more]
    rfl
  · rw [← List.cons_append, slashed_append (List.cons_ne_nil _ _) more]
  · exact slashed_append solid more

theorem getLast?_slashed {front : List (List Char)} {last : List Char} (full : last ≠ []) :
    (slashed (front ++ [last])).getLast? = last.getLast? := by
  by_cases single : front = []
  · rw [single, List.nil_append, slashed_singleton]
  · rw [slashed_append single (List.cons_ne_nil _ _), slashed_singleton, List.getLast?_append,
      List.getLast?_cons, List.getLast?_eq_some_getLast full]
    rfl

/-- A text whose last part counts does not end in a slash. -/
theorem getLast?_spelled {first : Option Component} {parts : List (List Char)} (solid : parts ≠ [])
    (plain : ∀ part ∈ parts, '/' ∉ part) (counts : ∀ last ∈ parts.getLast?, isVoid last = false) :
    (spelled first parts).getLast? ≠ some '/' := by
  rcases List.eq_nil_or_concat parts with rfl | ⟨front, last, rfl⟩
  · exact absurd rfl solid
  · rw [List.concat_eq_append] at plain counts ⊢
    have counted := counts last (by simp)
    have full : last ≠ [] := by
      rintro rfl
      cases counted
    have ends : ∀ lead, (slashed (lead ++ (front ++ [last]))).getLast? ≠ some '/' := by
      intro lead
      rw [← List.append_assoc, getLast?_slashed full]
      exact fun slash => plain last (by simp) (List.mem_of_getLast? slash)
    unfold spelled
    split
    · have shorter := ends []
      rw [List.nil_append] at shorter
      cases text : slashed (front ++ [last]) with
      | nil =>
        have same : (slashed (front ++ [last])).getLast? = last.getLast? := getLast?_slashed full
        rw [text, List.getLast?_eq_some_getLast full] at same
        cases same
      | cons c rest =>
        rw [text] at shorter
        rw [List.getLast?_cons_cons]
        exact shorter
    · exact ends [['.']]
    · exact ends []

/-- The parts of a path are those of its parent and some more. -/
theorem dropEnd_dropLast_append {parts : List (List Char)} (counts : dropEnd parts ≠ []) :
    ∃ back, back ≠ [] ∧ parts = dropEnd (dropEnd parts).dropLast ++ back := by
  obtain ⟨⟨void, split⟩, -⟩ := dropEnd_append parts
  obtain ⟨⟨inner, rest⟩, -⟩ := dropEnd_append (dropEnd parts).dropLast
  refine ⟨inner ++ [(dropEnd parts).getLast counts] ++ void, by simp, ?_⟩
  calc parts = dropEnd parts ++ void := split
    _ = (dropEnd parts).dropLast ++ [(dropEnd parts).getLast counts] ++ void := by
      rw [List.dropLast_concat_getLast counts]
    _ = dropEnd (dropEnd parts).dropLast ++ inner ++ [(dropEnd parts).getLast counts] ++ void := by
      rw [← rest]
    _ = _ := by simp only [List.append_assoc]

/-- **The parent of a path is spelled by the text in front of one of its slashes**, unless it is the
root or empty. -/
theorem parent?_spelled {path parent : Path} (above : path.parent? = some parent) :
    parent.text = "" ∨ parent.text = "/" ∨ (parent.text.toList.getLast? ≠ some '/' ∧
      ∃ more, path.text.toList = parent.text.toList ++ '/' :: more) := by
  obtain ⟨head, text, plain⟩ := start_spelled path
  unfold parent? at above
  dsimp only at above
  split at above
  · split at above
    · cases above
      exact .inl rfl
    · cases above
  · rename_i last rest counting
    have counts : dropEnd path.start.2 ≠ [] := counting ▸ List.cons_ne_nil last rest
    obtain ⟨back, more, split⟩ := dropEnd_dropLast_append counts
    rw [← counting] at above
    cases above
    have ends := (dropEnd_append (dropEnd path.start.2).dropLast).2
    generalize dropEnd (dropEnd path.start.2).dropLast = front at split ends ⊢
    rw [toList_ofParts head]
    by_cases single : front = []
    · rw [single, List.nil_append] at split
      rw [single]
      rcases head with relative | absolute | current
      · rw [relative]
        exact .inl rfl
      · rw [absolute]
        exact .inr (.inl rfl)
      · refine .inr (.inr ⟨?_, slashed back, ?_⟩)
        · rw [current]
          exact fun slash => absurd (List.mem_of_getLast? slash) (by decide)
        · rw [text, current, split]
          exact slashed_cons ['.'] more
    · rw [split] at plain
      refine .inr (.inr ⟨?_, slashed back, ?_⟩)
      · exact getLast?_spelled single (fun part member => plain part (List.mem_append_left _ member)) ends
      · rw [text, split, spelled_append single more]

end Path

namespace FileTree

variable {tree : FileTree} {path parent : Path}

/-! ### Parts at the front -/

/-- The parts of a path start with those of the text in front of one of its slashes. -/
theorem parts_append {text front : String} {more : List Char}
    (split : text.toList = front.toList ++ '/' :: more) (open_end : front.toList.getLast? ≠ some '/') :
    ∃ behind, behind ≠ [] ∧ parts text = parts front ++ behind := by
  have cut : Text.pieces Path.isSlash text.toList =
      Text.pieces Path.isSlash front.toList ++ Text.pieces Path.isSlash more := by
    rw [split]
    exact pieces_append _ (by decide) _
  unfold parts parts.pieces
  rw [if_neg open_end, cut, List.filter_append, List.map_append]
  by_cases slash : text.toList.getLast? = some '/'
  · rw [if_pos slash, List.append_assoc]
    exact ⟨_, by simp, rfl⟩
  · rw [if_neg slash]
    refine ⟨_, fun none => ?_, rfl⟩
    -- The last character of the text is no slash, so it stands in a part that is not empty.
    rw [split, List.getLast?_append, List.getLast?_cons] at slash
    cases ends : more.getLast? with
    | none =>
      rw [ends] at slash
      exact slash rfl
    | some c =>
      rw [ends] at slash
      have solid : Path.isSlash c = false := by
        rw [Path.isSlash, beq_eq_false_iff_ne]
        rintro rfl
        exact slash rfl
      obtain ⟨piece, inside, found⟩ := mem_pieces_of_mem (List.mem_of_getLast? ends) solid
      have kept : piece ∈ (Text.pieces Path.isSlash more).filter (· ≠ []) :=
        List.mem_filter.mpr ⟨inside, by simpa using List.ne_nil_of_mem found⟩
      exact List.ne_nil_of_mem kept (List.map_eq_nil_iff.mp none)

/-- **A path leads through the parts at its front**, to a directory. -/
theorem Leads.front {links : Nat} {place : Place} {all front behind : List String} {target : Target}
    (leads : tree.Leads true links place all target) (split : all = front ++ behind)
    (more : behind ≠ []) : ∃ middle, tree.Leads true links place front (.present middle .directory) := by
  induction leads generalizing front with
  | here => exact absurd (List.append_eq_nil_iff.mp split.symm).2 more
  | @stay links place rest target inside later ih =>
    cases front with
    | nil => exact ⟨place, .here inside⟩
    | cons name others =>
      obtain ⟨rfl, same⟩ := List.cons.inj split
      obtain ⟨middle, found⟩ := ih same
      exact ⟨middle, .stay inside found⟩
  | @up links place rest target inside later ih =>
    cases front with
    | nil => exact ⟨place, .here inside⟩
    | cons name others =>
      obtain ⟨rfl, same⟩ := List.cons.inj split
      obtain ⟨middle, found⟩ := ih same
      exact ⟨middle, .up inside found⟩
  | @missing links place name inside =>
    cases front with
    | nil => exact ⟨place, .here inside⟩
    | cons _ others =>
      have none := (List.cons.inj split).2
      exact absurd (List.append_eq_nil_iff.mp none.symm).2 more
  | last _ _ _ stop => cases stop
  | @jump links place name rest link target inside good there goesOn later ih =>
    cases front with
    | nil => exact ⟨place, .here inside⟩
    | cons _ others =>
      obtain ⟨rfl, same⟩ := List.cons.inj split
      have longer : FileTree.parts link ++ rest = FileTree.parts link ++ others ++ behind := by
        rw [same, List.append_assoc]
        rfl
      obtain ⟨middle, found⟩ := ih longer
      exact ⟨middle, .jump inside good there (by simp) found⟩
  | @down links place name rest entry target inside good there noLink later ih =>
    cases front with
    | nil => exact ⟨place, .here inside⟩
    | cons _ others =>
      obtain ⟨rfl, same⟩ := List.cons.inj split
      obtain ⟨middle, found⟩ := ih same
      exact ⟨middle, .down inside good there noLink found⟩

/-- What a path leads to is there too if a link at the end is not followed. -/
theorem Leads.unfollowed {links : Nat} {place : Place} {parts : List String} {target : Target}
    (leads : tree.Leads true links place parts target) (present : target.occupant ≠ none) :
    ∃ other entry, tree.Leads false links place parts (.present other entry) := by
  induction leads with
  | @here links place entry there => exact ⟨place, entry, .here there⟩
  | stay inside _ ih =>
    obtain ⟨other, entry, found⟩ := ih present
    exact ⟨other, entry, .stay inside found⟩
  | up inside _ ih =>
    obtain ⟨other, entry, found⟩ := ih present
    exact ⟨other, entry, .up inside found⟩
  | missing => exact absurd rfl present
  | last _ _ _ stop => cases stop
  | @jump links place name rest link target inside good there goesOn later ih =>
    by_cases ends : rest = []
    · subst ends
      exact ⟨place ++ [name], .link link, .last inside good there rfl⟩
    · obtain ⟨other, entry, found⟩ := ih present
      exact ⟨other, entry, .jump inside good there (by simp [ends]) found⟩
  | down inside good there noLink _ ih =>
    obtain ⟨other, entry, found⟩ := ih present
    exact ⟨other, entry, .down inside good there noLink found⟩

/-- Where a path does not end at a link, it makes no difference that such a link is not followed. -/
theorem Leads.followed {links : Nat} {place : Place} {parts : List String} {target : Target}
    (leads : tree.Leads false links place parts target)
    (noLink : ∀ link, target.occupant ≠ some (.link link)) :
    tree.Leads true links place parts target := by
  induction leads with
  | here there => exact .here there
  | stay inside _ ih => exact .stay inside (ih noLink)
  | up inside _ ih => exact .up inside (ih noLink)
  | missing inside good absent => exact .missing inside good absent
  | last => exact absurd rfl (noLink _)
  | jump inside good there _ _ ih => exact .jump inside good there (by simp) (ih noLink)
  | down inside good there onward _ ih => exact .down inside good there onward (ih noLink)

/-! ### Directories that are there -/

/-- The text of a path that can be looked up. -/
structure Usable (text : String) : Prop where
  clean : '\x00' ∉ text.toList
  solid : text ≠ ""
  short : ¬ pathLimit < text.utf8ByteSize

theorem Usable.front {text front : String} {more : List Char} (usable : Usable text)
    (split : text.toList = front.toList ++ more) (solid : front ≠ "") : Usable front where
  clean member := usable.clean (split ▸ List.mem_append_left _ member)
  solid := solid
  short := by
    have short := usable.short
    have whole : text = front ++ String.ofList more := by
      rw [← String.toList_inj, String.toList_append, String.toList_ofList, split]
    rw [whole, String.utf8ByteSize_append] at short
    omega

theorem usable_of_resolve {follow : Bool} {target : Target}
    (found : tree.resolve path follow = .ok target) : Usable path.text := by
  unfold resolve at found
  split at found
  · cases found
  · rename_i clean
    split at found
    · cases found
    · rename_i solid
      split at found
      · cases found
      · rename_i short
        exact ⟨clean, solid, short⟩

/-- A path that can be looked up is found where its parts lead. -/
theorem resolve_of_leads {follow : Bool} {target : Target} (usable : Usable path.text)
    (leads : tree.Leads follow linkLimit (origin path.text tree.workingDirectory) (parts path.text)
      target) : tree.resolve path follow = .ok target := by
  unfold resolve
  rw [if_neg usable.clean, if_neg usable.solid, if_neg usable.short]
  exact walk_eq_ok.mpr leads

/-- **A path leads to the same directory in a tree that keeps directories and links.** -/
theorem Keeps.leads_directory {before after : FileTree} (keeps : before.Keeps after) {links : Nat}
    {place : Place} {parts : List String} {target : Target}
    (leads : before.Leads true links place parts target) (ends : target.occupant = some .directory) :
    after.Leads true links place parts target := by
  induction leads with
  | here there =>
    cases ends
    exact .here (keeps.directory there)
  | stay inside _ ih => exact .stay (keeps.directory inside) (ih ends)
  | up inside _ ih => exact .up (keeps.directory inside) (ih ends)
  | missing => cases ends
  | last _ _ _ stop => cases stop
  | jump inside good there goesOn _ ih =>
    exact .jump (keeps.directory inside) good (keeps.link there) goesOn (ih ends)
  | @down links place name rest entry target inside good there noLink later ih =>
    cases entry with
    | file content stamp =>
      have here := later.place_of_file there
      have found := later.get?.1
      rw [here, there, ends] at found
      cases found
    | directory => exact .down (keeps.directory inside) good (keeps.directory there) nofun (ih ends)
    | link other => exact absurd rfl (noLink other)

theorem Keeps.resolve_directory {before after : FileTree} (keeps : before.Keeps after) {place : Place}
    (found : before.resolve path = .ok (.present place .directory)) :
    after.resolve path = .ok (.present place .directory) := by
  refine resolve_of_leads (usable_of_resolve found) ?_
  rw [keeps.workingDirectory]
  exact keeps.leads_directory (leads_of_resolve found) rfl

theorem origin_append {text front : String} {more : List Char}
    (split : text.toList = front.toList ++ more) (solid : front ≠ "") (place : Place) :
    origin text place = origin front place := by
  have full : front.toList ≠ [] := fun empty => solid (String.toList_eq_nil_iff.mp empty)
  unfold origin
  rw [split, List.head?_append, List.head?_eq_some_head full]
  rfl

theorem withoutSlashes_of_open {path : Path} (open_end : path.text.toList.getLast? ≠ some '/') :
    withoutSlashes path = path := by
  have kept : (path.text.toList.reverse.dropWhile (· = '/')).reverse = path.text.toList := by
    rcases List.eq_nil_or_concat path.text.toList with none | ⟨front, c, same⟩
    · rw [none]
      rfl
    · rw [List.concat_eq_append] at same
      rw [same, List.getLast?_concat] at open_end
      rw [same, List.reverse_append, List.reverse_singleton, List.singleton_append,
        List.dropWhile_cons_of_neg (by simpa using open_end), List.reverse_cons, List.reverse_reverse]
  unfold withoutSlashes
  dsimp only
  rw [kept]
  split
  · rfl
  · rw [String.ofList_toList]

/-- **The text in front of a slash of a path that is found names a directory**, which cannot be made
again. -/
theorem resolve_front {target : Target} {front : Path} {more : List Char}
    (found : tree.resolve path = .ok target) (solid : front.text ≠ "")
    (split : path.text.toList = front.text.toList ++ '/' :: more)
    (open_end : front.text.toList.getLast? ≠ some '/') :
    (∃ place, tree.resolve front = .ok (.present place .directory)) ∧
      ∃ place entry, tree.resolve front false = .ok (.present place entry) := by
  have usable := (usable_of_resolve found).front split solid
  obtain ⟨behind, further, all⟩ := parts_append split open_end
  obtain ⟨middle, leads⟩ := (leads_of_resolve found).front all further
  rw [origin_append split solid] at leads
  obtain ⟨place, entry, unfollowed⟩ := leads.unfollowed nofun
  exact ⟨⟨middle, resolve_of_leads usable leads⟩, place, entry, resolve_of_leads usable unfollowed⟩

/-- The parent of a path that is found is a directory, and cannot be made again. -/
theorem resolve_parent {target : Target} (found : tree.resolve path = .ok target)
    (above : path.parent? = some parent) (solid : parent.text ≠ "") :
    (∃ place, tree.resolve parent = .ok (.present place .directory)) ∧
      ∃ place entry, tree.resolve (withoutSlashes parent) false = .ok (.present place entry) := by
  rcases Path.parent?_spelled above with none | root | ⟨open_end, more, split⟩
  · exact absurd none solid
  · obtain ⟨text⟩ := parent
    cases root
    have leads (follow : Bool) : tree.Leads follow linkLimit (origin "/" tree.workingDirectory) (parts "/")
        (.present [] .directory) := .stay rfl (.here rfl)
    have usable : Usable "/" := by constructor <;> decide
    exact ⟨⟨[], resolve_of_leads usable (leads true)⟩, [], .directory,
      resolve_of_leads usable (leads false)⟩
  · rw [withoutSlashes_of_open open_end]
    exact resolve_front found solid split open_end

/-- The directories above a path that is found are there. -/
theorem createParents_of_resolve {target : Target} (found : tree.resolve path = .ok target) :
    tree.createParents path = (.ok (), tree) := by
  unfold createParents
  split
  · rfl
  · rename_i parent above
    have made : tree.createDirectories parent = (.ok (), tree) := by
      unfold createDirectories createFrom
      by_cases solid : parent.text = ""
      · rw [if_pos solid]
      · obtain ⟨⟨place, directory⟩, other, entry, there⟩ := resolve_parent found above solid
        have known : tree.createDirectory parent = .error .alreadyExists := by
          unfold createDirectory
          rw [there]
        have inside : tree.isDirectory parent = true := by
          unfold isDirectory find
          rw [directory]
        rw [if_neg solid, known]
        dsimp only
        rw [inside, if_pos rfl]
    rw [made]
    rfl

/-- **A file that is found can be stored again.** -/
theorem store_of_resolve {place : Place} {old : Content} {stamp : Nat}
    (found : tree.resolve path = .ok (.present place (.file old stamp))) (content : Content) :
    tree.store path content = (.ok (), tree.putFile place content) := by
  have written : tree.write path content = .ok (tree.putFile place content) := by
    unfold write
    rw [found]
  unfold store
  rw [createParents_of_resolve found]
  dsimp only
  rw [written]

/-! ### Directories that names are joined to -/

/-- A dot behind a path leads to the same directory. -/
theorem Leads.dotted {links : Nat} {place middle : Place} {front : List String}
    (leads : tree.Leads true links place front (.present middle .directory)) :
    tree.Leads true links place (front ++ ["."]) (.present middle .directory) := by
  generalize same : Target.present middle .directory = target at leads
  induction leads with
  | here there =>
    cases same
    exact .stay there (.here there)
  | stay inside _ ih => exact .stay inside (ih same)
  | up inside _ ih => exact .up inside (ih same)
  | missing => cases same
  | last _ _ _ stop => cases stop
  | @jump links place name rest link target inside good there goesOn later ih =>
    have further := ih same
    rw [List.append_assoc] at further
    exact .jump inside good there (by simp) further
  | down inside good there noLink _ ih => exact .down inside good there noLink (ih same)

/-- Slashes at the end of a text count as a dot. -/
theorem parts_of_slashes {text core : String} {slashes : List Char}
    (split : text.toList = core.toList ++ '/' :: slashes) (all : ∀ c ∈ slashes, c = '/')
    (open_end : core.toList.getLast? ≠ some '/') : parts text = parts core ++ ["."] := by
  have cut : Text.pieces Path.isSlash text.toList =
      Text.pieces Path.isSlash core.toList ++ Text.pieces Path.isSlash slashes := by
    rw [split]
    exact pieces_append _ (by decide) _
  have void : (Text.pieces Path.isSlash slashes).filter (· ≠ []) = [] := by
    refine List.filter_eq_nil_iff.mpr fun piece inside => ?_
    have empty : piece = [] := by
      refine List.eq_nil_iff_forall_not_mem.mpr fun c member => ?_
      obtain ⟨solid, there⟩ := mem_of_mem_pieces inside member
      rw [all c there] at solid
      cases solid
    simp [empty]
  have slash : text.toList.getLast? = some '/' := by
    rw [split, List.getLast?_append, List.getLast?_cons]
    cases ends : slashes.getLast? with
    | none => rfl
    | some c =>
      rw [all c (List.mem_of_getLast? ends)]
      rfl
  unfold parts parts.pieces
  rw [if_pos slash, if_neg open_end, cut, List.filter_append, void, List.append_nil]

/-- A text is its text without slashes at the end, and these slashes. -/
theorem exists_core {text : String} (slash : text.toList.getLast? = some '/') :
    ∃ (core : String) (slashes : List Char), text.toList = core.toList ++ '/' :: slashes ∧
      (∀ c ∈ slashes, c = '/') ∧ core.toList.getLast? ≠ some '/' := by
  obtain ⟨front, ends⟩ := List.getLast?_eq_some_iff.mp slash
  have turned : text.toList.reverse = '/' :: front.reverse := by
    rw [ends, List.reverse_append]
    rfl
  let core := (front.reverse.dropWhile (· = '/')).reverse
  let slashes := (front.reverse.takeWhile (· = '/')).reverse
  have kept : front = core ++ slashes := by
    rw [← List.reverse_append, List.takeWhile_append_dropWhile, List.reverse_reverse]
  have all : ∀ c ∈ slashes, c = '/' := fun c member => by
    have held := List.all_eq_true.mp List.all_takeWhile c (List.mem_reverse.mp member)
    simpa using held
  have same : slashes ++ ['/'] = '/' :: slashes := by
    rw [List.eq_replicate_of_mem all, ← List.replicate_succ', List.replicate_succ]
  refine ⟨String.ofList core, slashes, ?_, all, ?_⟩
  · rw [ends, kept, List.append_assoc, same, String.toList_ofList]
  · rw [String.toList_ofList, List.getLast?_reverse]
    intro first
    have head := List.head?_dropWhile_not (fun c => decide (c = '/')) front.reverse
    rw [first] at head
    simp at head

/-- **The directory that a name is joined to is there** if the path is found. -/
theorem resolve_base {base : Path} {name : String} (named : IsFileName name) {target : Target}
    (found : tree.resolve (base.join name) = .ok target) :
    base.text = "" ∨ ∃ place, tree.resolve base = .ok (.present place .directory) := by
  have relative : (Path.mk name).isAbsolute = false := by
    rw [Path.isAbsolute, decide_eq_false_iff_not]
    exact fun first => named.plain (List.mem_of_head? first)
  by_cases solid : base.text = ""
  · exact .inl solid
  · right
    by_cases slash : base.text.toList.getLast? = some '/'
    · have text : (base.join name).text = base.text ++ name := by
        unfold Path.join
        rw [relative, if_neg Bool.false_ne_true]
        simp [slash]
      obtain ⟨core, slashes, split, all, open_end⟩ := exists_core slash
      have usable : Usable base.text := (usable_of_resolve found).front
        (by rw [text, String.toList_append]) solid
      have dots := parts_of_slashes split all open_end
      by_cases none : core = ""
      · rw [none] at dots split
        refine ⟨[], resolve_of_leads usable ?_⟩
        have root : origin base.text tree.workingDirectory = [] := by
          unfold origin
          rw [split]
          rfl
        rw [root, dots]
        exact .stay rfl (.here rfl)
      · have whole : (base.join name).text.toList = core.toList ++ '/' :: (slashes ++ name.toList) := by
          rw [text, String.toList_append, split, List.append_assoc]
          rfl
        obtain ⟨⟨place, there⟩, -⟩ : (∃ place, tree.resolve ⟨core⟩ = .ok (.present place .directory)) ∧ _ :=
          resolve_front found none whole open_end
        refine ⟨place, resolve_of_leads usable ?_⟩
        rw [dots, origin_append split none]
        exact (leads_of_resolve there).dotted
    · have text : (base.join name).text = base.text ++ "/" ++ name := by
        unfold Path.join
        rw [relative, if_neg Bool.false_ne_true]
        simp [solid, slash]
      have split : (base.join name).text.toList = base.text.toList ++ '/' :: name.toList := by
        rw [text, String.toList_append, String.toList_append, List.append_assoc]
        rfl
      exact (resolve_front found solid split slash).1

end FileTree

end Localization
