import Localization.Proofs.Path
import Localization.Proofs.Scanning
import Localization.Proofs.SortedMap

/-
**What exactly a scan finds.**

* `SourceScanner.scanText_eq` — the mentions and warnings of a source, from its nuggets and mistakes.
* `SourceScanner.scanShared_eq` — threads that share the sources find what one finds alone.
* `Item.insertText_sorted` — a text is put into a sorted list where a binary search finds its place.
* `Items.gathered_ofMentions` — what the items of mentions take from them (`Item.Gathers`).
* `Items.ofMentions_perm` — the order of mentions makes no difference.
* `SourceScanner.scan_exact` — the items of a scan, from the accepted nuggets of its sources.
-/

namespace Localization

open Text

/-! ### Sources -/

namespace SourceScanner

variable {scanner : SourceScanner} {tree : FileTree} {path : Path} {text : String}

/-- Where a nugget starts. -/
def referenceOf (scanner : SourceScanner) (path : Path) (text : String) (start : Nat) : Reference :=
  ⟨scanner.filter.reference path, lineNumber text.toList start⟩

/-- The line of the source at a place, behind its reference. -/
def contextOf (scanner : SourceScanner) (path : Path) (text : String) (start : Nat) : String :=
  (scanner.referenceOf path text start).text ++ ": " ++ String.ofList (lineAround text.toList start)

/-- What an accepted nugget mentions. -/
def mentionOf (scanner : SourceScanner) (path : Path) (text : String) (occurrence : Occurrence) :
    Mention where
  id := occurrence.nugget.id
  reference := scanner.referenceOf path text occurrence.span.start
  comment := occurrence.nugget.comment
  context :=
    if scanner.showContext then some (scanner.contextOf path text occurrence.span.start) else none

/-- The warning of a mistake. -/
def warningOf (scanner : SourceScanner) (path : Path) (text : String) (error : NuggetError) :
    ScanWarning :=
  .malformed (scanner.referenceOf path text error.span.start) error

/-- The findings of a nugget or of a mistake. -/
def findingOf (scanner : SourceScanner) (path : Path) (text : String) :
    Except NuggetError Occurrence → Findings
  | .ok occurrence => ⟨[scanner.mentionOf path text occurrence], []⟩
  | .error error => ⟨[], [scanner.warningOf path text error]⟩

/-- **The findings in a text are those of its nuggets and mistakes, in order.** -/
theorem scanText_eq (scanner : SourceScanner) (path : Path) (text : String) :
    scanner.scanText path text =
      ((scanner.markup.parse .source text).map (scanner.findingOf path text)).foldr
        Findings.append .none := by
  have found (results : List (Except NuggetError Occurrence)) {counter : LineCounter}
      (counts : counter.Counts text.toList) :
      scanner.findings (scanner.filter.reference path) text.toList counter results =
        (results.map (scanner.findingOf path text)).foldr Findings.append .none := by
    induction results generalizing counter with
    | nil => rfl
    | cons result rest ih =>
      rw [findings]
      cases result with
      | error error =>
        obtain ⟨line, further⟩ := counts.lineAt error.span.start
        simp only [finding, line]
        rw [ih further]
        rfl
      | ok occurrence =>
        obtain ⟨line, further⟩ := counts.lineAt occurrence.span.start
        simp only [finding, line]
        rw [ih further]
        rfl
  exact found _ (LineCounter.counts_start text.toList)

/-! ### Shares -/

/-- The number of threads makes no difference to what is found in a source. -/
theorem scanFile_threads (scanner : SourceScanner) (threads : Nat) (tree : FileTree) (path : Path) :
    ({ scanner with threads := threads } : SourceScanner).scanFile tree path =
      scanner.scanFile tree path := by
  unfold scanFile
  cases tree.readText path with
  | error error => rfl
  | ok text =>
    dsimp only
    rw [scanText_eq, scanText_eq]
    rfl

theorem scanFiles_threads (scanner : SourceScanner) (threads : Nat) (tree : FileTree)
    (paths : List Path) :
    ({ scanner with threads := threads } : SourceScanner).scanFiles tree paths =
      scanner.scanFiles tree paths := by
  unfold scanFiles
  rw [funext (scanFile_threads scanner threads tree)]

theorem flatten_portions {α : Type} (size : Nat) (elements : List α) :
    (portions size elements).flatten = elements := by
  fun_induction portions size elements with
  | case1 => rfl
  | case2 first rest ih => rw [List.flatten_cons, ih, List.cons_append, List.take_append_drop]

theorem append_assoc (first second third : Findings) :
    (first.append second).append third = first.append (second.append third) := by
  unfold Findings.append
  rw [List.append_assoc, List.append_assoc]

theorem foldr_append (first second : List Findings) :
    (first ++ second).foldr Findings.append .none =
      (first.foldr Findings.append .none).append (second.foldr Findings.append .none) := by
  induction first with
  | nil => rfl
  | cons findings rest ih => rw [List.cons_append, List.foldr_cons, ih, List.foldr_cons, append_assoc]

/-- **Threads that share the sources find what one finds alone**, in the same order. -/
theorem scanShared_eq (scanner : SourceScanner) (tree : FileTree) (paths : List Path) :
    scanner.scanShared tree paths = scanner.scanFiles tree paths := by
  have joined (parts : List (List Path)) :
      (parts.map (scanner.scanFiles tree)).foldr Findings.append .none =
        scanner.scanFiles tree parts.flatten := by
    induction parts with
    | nil => rfl
    | cons part rest ih =>
      rw [List.map_cons, List.foldr_cons, ih, List.flatten_cons, scanFiles, scanFiles, scanFiles,
        List.map_append, foldr_append]
  rw [scanShared, joined, shares, flatten_portions]

end SourceScanner

/-! ### Items -/

namespace Item

/-- A text that is put behind the lesser ones of a list stands in front of a greater one. This is
the place that a binary search finds. -/
theorem insertText_append {text : String} {lesser greater : List String}
    (behind : ∀ other ∈ lesser, other < text) (front : ∀ other ∈ greater, text < other) :
    insertText text (lesser ++ greater) = lesser ++ text :: greater := by
  induction lesser with
  | nil =>
    cases greater with
    | nil => rfl
    | cons first rest =>
      have later := front first List.mem_cons_self
      rw [List.nil_append, insertText, if_neg (StrictOrder.asymm later),
        if_neg (StrictOrder.ne_of_lt later).symm]
      rfl
  | cons first rest ih =>
    rw [List.cons_append, insertText, if_pos (behind first List.mem_cons_self),
      ih fun other member => behind other (List.mem_cons_of_mem first member)]
    rfl

/-- A text that stands in a sorted list is not put in again. -/
theorem insertText_eq_self {text : String} {texts : List String} (sorted : texts.Pairwise (· < ·))
    (member : text ∈ texts) : insertText text texts = texts := by
  induction texts with
  | nil => cases member
  | cons first rest ih =>
    obtain ⟨least, others⟩ := List.pairwise_cons.mp sorted
    rw [insertText]
    rcases List.mem_cons.mp member with rfl | later
    · rw [if_neg (String.lt_irrefl text), if_pos rfl]
    · rw [if_pos (least text later), ih others later]

/-- A text that does not stand in a sorted list has a place in it. -/
theorem exists_place {text : String} {texts : List String} (sorted : texts.Pairwise (· < ·))
    (missing : text ∉ texts) : ∃ lesser greater, texts = lesser ++ greater ∧
      (∀ other ∈ lesser, other < text) ∧ ∀ other ∈ greater, text < other := by
  induction texts with
  | nil => exact ⟨[], [], rfl, nofun, nofun⟩
  | cons first rest ih =>
    obtain ⟨least, others⟩ := List.pairwise_cons.mp sorted
    have different : first ≠ text := fun same => missing (same ▸ List.mem_cons_self)
    by_cases behind : first < text
    · obtain ⟨lesser, greater, rfl, before, after⟩ :=
        ih others fun member => missing (List.mem_cons_of_mem first member)
      exact ⟨first :: lesser, greater, rfl, List.forall_mem_cons.mpr ⟨behind, before⟩, after⟩
    · have front : text < first :=
        Decidable.byContradiction fun notFront => different (StrictOrder.connected behind notFront)
      refine ⟨[], first :: rest, rfl, nofun, List.forall_mem_cons.mpr ⟨front, fun other member => ?_⟩⟩
      exact String.lt_trans front (least other member)

/-- **A sorted list stays sorted** when a text is put in. -/
theorem insertText_sorted (text : String) {texts : List String} (sorted : texts.Pairwise (· < ·)) :
    (insertText text texts).Pairwise (· < ·) := by
  by_cases member : text ∈ texts
  · rwa [insertText_eq_self sorted member]
  · obtain ⟨lesser, greater, rfl, behind, front⟩ := exists_place sorted member
    rw [insertText_append behind front]
    obtain ⟨first, second, across⟩ := List.pairwise_append.mp sorted
    refine List.pairwise_append.mpr ⟨first, List.pairwise_cons.mpr ⟨front, second⟩, ?_⟩
    exact fun other inside => List.forall_mem_cons.mpr ⟨behind other inside, across other inside⟩

theorem foldl_insertText_sorted (added : List String) {texts : List String}
    (sorted : texts.Pairwise (· < ·)) :
    (added.foldl (fun texts text => insertText text texts) texts).Pairwise (· < ·) := by
  induction added generalizing texts with
  | nil => exact sorted
  | cons text rest ih => exact ih (insertText_sorted text sorted)

/-- Sorted lists of the same texts are equal. -/
theorem eq_of_mem_iff {first second : List String} (sorted : first.Pairwise (· < ·))
    (other : second.Pairwise (· < ·)) (same : ∀ text, text ∈ first ↔ text ∈ second) :
    first = second := by
  have shuffled := (List.perm_ext_iff_of_nodup (sorted.imp StrictOrder.ne_of_lt)
    (other.imp StrictOrder.ne_of_lt)).mpr same
  exact shuffled.eq_of_pairwise (fun a b _ _ before after => absurd after (StrictOrder.asymm before))
    sorted other

/-- What an item takes from the mentions of its message. -/
structure Gathers (mentions : List Mention) (id : String) (item : Item) : Prop where
  references : ∀ reference, reference ∈ item.references.keys ↔
    ∃ mention ∈ mentions, mention.id = id ∧ mention.reference = reference
  sorted : item.extracted.Pairwise (· < ·)
  extracted : ∀ text, text ∈ item.extracted ↔
    ∃ mention ∈ mentions, mention.id = id ∧ text ∈ mention.comment.toList ++ mention.context.toList
  others : item = { ofId id with references := item.references, extracted := item.extracted }

variable {mentions others : List Mention} {mention : Mention} {id : String} {item other : Item}

theorem gathers_nil (id : String) : (ofId id).Gathers [] id where
  references := fun reference => by simp [ofId, SortedMap.keys, SortedMap.empty]
  sorted := .nil
  extracted := fun text => by simp [ofId]
  others := rfl

/-- A mention of another message adds nothing. -/
theorem Gathers.skip (gathers : item.Gathers mentions id) (different : mention.id ≠ id) :
    item.Gathers (mentions ++ [mention]) id where
  references := fun reference => by simp [gathers.references, or_and_right, exists_or, different]
  sorted := gathers.sorted
  extracted := fun text => by simp [gathers.extracted, or_and_right, exists_or, different]
  others := gathers.others

/-- A mention of the message adds its reference and its texts. -/
theorem Gathers.addMention (gathers : item.Gathers mentions mention.id) :
    (item.addMention mention).Gathers (mentions ++ [mention]) mention.id where
  references := fun reference => by
    rw [Item.addMention, SortedMap.mem_keys_insert, gathers.references]
    simp [or_and_right, exists_or, or_comm, eq_comm]
  sorted := foldl_insertText_sorted _ gathers.sorted
  extracted := fun text => by
    rw [Item.addMention, mem_foldl_insertText, gathers.extracted]
    simp [or_and_right, exists_or, or_comm]
  others := by
    rw [Item.addMention, gathers.others]

/-- Mentions in another order make the same item. -/
theorem Gathers.unique (first : item.Gathers mentions id) (second : other.Gathers others id)
    (same : ∀ mention, mention ∈ mentions ↔ mention ∈ others) : item = other := by
  have references : item.references = other.references :=
    SortedSet.ext_keys fun reference => by
      rw [first.references, second.references]
      simp only [same]
  have extracted : item.extracted = other.extracted :=
    eq_of_mem_iff first.sorted second.sorted fun text => by
      rw [first.extracted, second.extracted]
      simp only [same]
  rw [first.others, second.others, references, extracted]

end Item

namespace Items

/-- The items hold what the mentions of each message say of it, and no other message. -/
structure Gathered (mentions : List Mention) (items : Items) : Prop where
  keys : ∀ id, id ∈ items.keys ↔ ∃ mention ∈ mentions, mention.id = id
  gathers : ∀ id, ((items.get? id).getD (.ofId id)).Gathers mentions id

variable {mentions others : List Mention} {items : Items}

theorem gathered_empty : Gathered [] .empty where
  keys := fun id => by simp [SortedMap.keys, SortedMap.empty]
  gathers := Item.gathers_nil

theorem Gathered.addMention (gathered : Gathered mentions items) (mention : Mention) :
    Gathered (mentions ++ [mention]) (items.addMention mention) where
  keys := fun id => by
    rw [Items.addMention, SortedMap.mem_keys_insert, gathered.keys]
    simp [or_and_right, exists_or, or_comm, eq_comm]
  gathers := fun id => by
    rw [get?_addMention]
    by_cases same : id = mention.id
    · rw [if_pos same, same, Option.getD_some]
      exact (gathered.gathers mention.id).addMention
    · rw [if_neg same]
      exact (gathered.gathers id).skip (Ne.symm same)

theorem Gathered.foldl (gathered : Gathered mentions items) (more : List Mention) :
    Gathered (mentions ++ more) (more.foldl Items.addMention items) := by
  induction more generalizing mentions items with
  | nil =>
    rw [List.append_nil]
    exact gathered
  | cons mention rest ih =>
    rw [List.append_cons]
    exact ih (gathered.addMention mention)

/-- **The items of mentions hold exactly what the mentions say.** -/
theorem gathered_ofMentions (mentions : List Mention) : Gathered mentions (ofMentions mentions) :=
  gathered_empty.foldl mentions

theorem Gathered.unique {items others : Items} {firsts seconds : List Mention}
    (first : Gathered firsts items) (second : Gathered seconds others)
    (same : ∀ mention, mention ∈ firsts ↔ mention ∈ seconds) : items = others := by
  refine SortedMap.ext fun id => ?_
  have both := (first.gathers id).unique (second.gathers id) same
  by_cases known : ∃ mention ∈ firsts, mention.id = id
  · obtain ⟨item, here⟩ := SortedMap.mem_keys.mp ((first.keys id).mpr known)
    obtain ⟨mention, inside, named⟩ := known
    obtain ⟨other, there⟩ :=
      SortedMap.mem_keys.mp ((second.keys id).mpr ⟨mention, (same mention).mp inside, named⟩)
    rw [here, there, Option.getD_some, Option.getD_some] at both
    rw [here, there, both]
  · rw [SortedMap.not_mem_keys.mp fun inside => known ((first.keys id).mp inside)]
    refine (SortedMap.not_mem_keys.mp fun inside => known ?_).symm
    obtain ⟨mention, there, named⟩ := (second.keys id).mp inside
    exact ⟨mention, (same mention).mpr there, named⟩

/-- **The order of mentions makes no difference to their items.** -/
theorem ofMentions_perm (shuffled : mentions.Perm others) : ofMentions mentions = ofMentions others :=
  (gathered_ofMentions mentions).unique (gathered_ofMentions others) fun _ => shuffled.mem_iff

end Items

/-! ### Scans -/

namespace SourceScanner

variable {scanner : SourceScanner} {tree : FileTree} {paths : List Path} {path : Path}
  {text id : String} {occurrence : Occurrence} {item : Item}

/-- A nugget without mistakes in one of the sources, which can be read. -/
structure Accepts (scanner : SourceScanner) (tree : FileTree) (paths : List Path) (path : Path)
    (text : String) (occurrence : Occurrence) : Prop where
  listed : path ∈ paths
  read : tree.readText path = .ok text
  parsed : .ok occurrence ∈ scanner.markup.parse .source text

/-- An item that is made up of the accepted nuggets of its message, and of nothing else. -/
structure MadeOf (scanner : SourceScanner) (tree : FileTree) (paths : List Path) (id : String)
    (item : Item) : Prop where
  references : ∀ reference, reference ∈ item.references.keys ↔ ∃ path text occurrence,
    scanner.Accepts tree paths path text occurrence ∧ occurrence.nugget.id = id ∧
      reference = scanner.referenceOf path text occurrence.span.start
  sorted : item.extracted.Pairwise (· < ·)
  extracted : ∀ line, line ∈ item.extracted ↔ ∃ path text occurrence,
    scanner.Accepts tree paths path text occurrence ∧ occurrence.nugget.id = id ∧
      (occurrence.nugget.comment = some line ∨
        scanner.showContext = true ∧ line = scanner.contextOf path text occurrence.span.start)
  others : item = { Item.ofId id with references := item.references, extracted := item.extracted }

/-- **What sources mention are their accepted nuggets.** -/
theorem mem_mentions_scanFiles {mention : Mention} :
    mention ∈ (scanner.scanFiles tree paths).mentions ↔ ∃ path text occurrence,
      scanner.Accepts tree paths path text occurrence ∧
        mention = scanner.mentionOf path text occurrence := by
  rw [scanFiles, mem_foldr_append]
  constructor
  · rintro ⟨findings, there, member⟩
    obtain ⟨path, listed, rfl⟩ := List.mem_map.mp there
    rw [scanFile] at member
    cases read : tree.readText path with
    | error error =>
      rw [read] at member
      cases member
    | ok text =>
      rw [read] at member
      dsimp only at member
      rw [scanText_eq, mem_foldr_append] at member
      obtain ⟨findings, within, member⟩ := member
      obtain ⟨result, parsed, rfl⟩ := List.mem_map.mp within
      cases result with
      | error error => cases member
      | ok occurrence =>
        exact ⟨path, text, occurrence, ⟨listed, read, parsed⟩, List.mem_singleton.mp member⟩
  · rintro ⟨path, text, occurrence, ⟨listed, read, parsed⟩, rfl⟩
    refine ⟨_, List.mem_map.mpr ⟨path, listed, rfl⟩, ?_⟩
    rw [scanFile, read]
    dsimp only
    rw [scanText_eq, mem_foldr_append]
    exact ⟨_, List.mem_map.mpr ⟨_, parsed, rfl⟩, List.mem_singleton_self _⟩

/-- Items that gather what sources mention are made of the accepted nuggets. -/
theorem madeOf_of_gathers (gathers : item.Gathers (scanner.scanFiles tree paths).mentions id) :
    scanner.MadeOf tree paths id item where
  references := fun reference => by
    rw [gathers.references]
    constructor
    · rintro ⟨mention, member, named, there⟩
      obtain ⟨path, text, occurrence, accepts, rfl⟩ := mem_mentions_scanFiles.mp member
      exact ⟨path, text, occurrence, accepts, named, there.symm⟩
    · rintro ⟨path, text, occurrence, accepts, named, there⟩
      exact ⟨_, mem_mentions_scanFiles.mpr ⟨path, text, occurrence, accepts, rfl⟩, named, there.symm⟩
  sorted := gathers.sorted
  extracted := fun line => by
    have texts (path text occurrence) :
        line ∈ (scanner.mentionOf path text occurrence).comment.toList ++
          (scanner.mentionOf path text occurrence).context.toList ↔
        occurrence.nugget.comment = some line ∨
          scanner.showContext = true ∧ line = scanner.contextOf path text occurrence.span.start := by
      rw [List.mem_append, Option.mem_toList, Option.mem_toList, mentionOf]
      cases scanner.showContext <;> simp [eq_comm]
    rw [gathers.extracted]
    constructor
    · rintro ⟨mention, member, named, there⟩
      obtain ⟨path, text, occurrence, accepts, rfl⟩ := mem_mentions_scanFiles.mp member
      exact ⟨path, text, occurrence, accepts, named, (texts path text occurrence).mp there⟩
    · rintro ⟨path, text, occurrence, accepts, named, there⟩
      exact ⟨_, mem_mentions_scanFiles.mpr ⟨path, text, occurrence, accepts, rfl⟩, named,
        (texts path text occurrence).mpr there⟩
  others := gathers.others

/-- **A scan is exact, and it is the same for any number of threads.** It finds what one thread
finds that reads the sources one after the other, in order. There is an item for each message of an
accepted nugget, and it is made up of the nuggets of its message; the order of the nuggets makes no
difference. -/
theorem scan_exact (scanner : SourceScanner) (tree : FileTree) :
    (∀ threads, ({ scanner with threads := threads } : SourceScanner).scan tree = scanner.scan tree) ∧
      (∀ paths, scanner.scanShared tree paths = scanner.scanFiles tree paths) ∧
      ((scanner.sources tree).Pairwise fun first second => first.before second = true) ∧
      (let found := scanner.scanFiles tree (scanner.sources tree)
      scanner.scan tree =
        ⟨(scanner.sources tree).length, .ofMentions found.mentions, found.warnings⟩) ∧
      (∀ paths,
        let items := Items.ofMentions (scanner.scanShared tree paths).mentions
        (∀ id, id ∈ items.keys ↔ ∃ path text occurrence,
          scanner.Accepts tree paths path text occurrence ∧ occurrence.nugget.id = id) ∧
        ∀ id item, items.get? id = some item → scanner.MadeOf tree paths id item) ∧
      ∀ mentions others : List Mention, mentions.Perm others →
        Items.ofMentions mentions = Items.ofMentions others := by
  refine ⟨fun threads => ?_, scanShared_eq scanner tree, (Path.sortDistinct_sorted _).1, ?_,
    fun paths => ?_, fun mentions others => Items.ofMentions_perm⟩
  · rw [scan, scan, scanShared_eq, scanShared_eq, scanFiles_threads]
    rfl
  · rw [scan, scanShared_eq]
  · have gathered := Items.gathered_ofMentions (scanner.scanFiles tree paths).mentions
    rw [scanShared_eq]
    refine ⟨fun id => ?_, fun id item found => ?_⟩
    · rw [gathered.keys]
      constructor
      · rintro ⟨mention, member, named⟩
        obtain ⟨path, text, occurrence, accepts, rfl⟩ := mem_mentions_scanFiles.mp member
        exact ⟨path, text, occurrence, accepts, named⟩
      · rintro ⟨path, text, occurrence, accepts, named⟩
        exact ⟨_, mem_mentions_scanFiles.mpr ⟨path, text, occurrence, accepts, rfl⟩, named⟩
    · have gathers := gathered.gathers id
      rw [found, Option.getD_some] at gathers
      exact madeOf_of_gathers gathers

end SourceScanner

end Localization
