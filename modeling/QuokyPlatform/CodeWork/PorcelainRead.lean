import Mathlib.Algebra.BigOperators.Group.List.Basic
import QuokyPlatform.CodeWork.PorcelainHeader

/-!
# The status of a repository, read back

The status that is read is the status of the repository exactly when the header is read and no listed
path is printed in quotes. A quoted origin only matters when it holds an arrow: what is read is then the
text behind that arrow.
-/

namespace QuokyPlatform.CodeWork
open Chunking Separators
set_option autoImplicit false
set_option maxHeartbeats 250000

/-! ## Printed names -/

section Names

/-- Git prints the name as it is. -/
def Plain (name : FileName) : Prop := name.any isQuoted = false

variable {name : FileName}

theorem quotePath_plain (h : Plain name) : quotePath name = name.map UInt8.toUInt16 := by
  unfold quotePath
  rw [if_neg (Bool.eq_false_iff.mp h)]

theorem quotePath_quoted (h : ¬ Plain name) :
    quotePath name = 0x22 :: (name.flatMap escapeByte ++ [0x22]) := by
  unfold quotePath
  rw [if_pos (Bool.not_eq_false _ ▸ h)]

theorem plain_byte (h : Plain name) {byte : UInt8} (hbyte : byte ∈ name) :
    0x20 < byte ∧ byte < 0x7F := by
  have hplain : isQuoted byte = false := by
    rw [← Bool.not_eq_true]
    exact fun htrue => Bool.false_ne_true (h.symm.trans (List.any_eq_true.mpr ⟨byte, hbyte, htrue⟩))
  unfold isQuoted at hplain
  rw [Bool.or_eq_false_iff, Bool.or_eq_false_iff, Bool.or_eq_false_iff] at hplain
  obtain ⟨⟨⟨hlow, hhigh⟩, -⟩, -⟩ := hplain
  exact ⟨UInt8.not_le.mp (of_decide_eq_false hlow), UInt8.not_le.mp (of_decide_eq_false hhigh)⟩

theorem realName_plain (h : Plain name) : realName name = quotePath name := by
  rw [quotePath_plain h]
  refine Utf8.decode_ascii fun byte hbyte => ?_
  exact UInt8.lt_trans (plain_byte h hbyte).2 (by decide)

theorem quotePath_no_space (h : Plain name) : (0x20 : CodeUnit) ∉ quotePath name := by
  rw [quotePath_plain h, List.mem_map]
  rintro ⟨byte, hbyte, hspace⟩
  have hlow := (plain_byte h hbyte).1
  have hsame : byte = 0x20 := UInt8.toUInt16_inj.mp hspace
  rw [hsame] at hlow
  exact UInt8.lt_irrefl _ hlow

theorem escapeByte_ne_nil (byte : UInt8) : escapeByte byte ≠ [] := by
  unfold escapeByte
  split
  · exact List.cons_ne_nil _ _
  · split
    · exact List.cons_ne_nil _ _
    · exact List.cons_ne_nil _ _

theorem octalDigit_range (n : ℕ) : 0x30 ≤ octalDigit n ∧ octalDigit n ≤ 0x37 := by
  have hvalue : (octalDigit n).toNat = 0x30 + n % 8 := by
    unfold octalDigit
    rw [UInt16.toNat_ofNat']
    omega
  rw [UInt16.le_iff_toNat_le, UInt16.le_iff_toNat_le, hvalue]
  constructor
  · exact Nat.le_add_right _ _
  · show 48 + n % 8 ≤ 55
    omega

/-- An escaped byte is itself, or a backslash and units that are no space and no newline. -/
theorem escapeByte_cases (byte : UInt8) :
    (escapeByte byte = [byte.toUInt16] ∧ 0x20 ≤ byte) ∨
      ∃ rest, escapeByte byte = 0x5C :: rest ∧ ∀ unit ∈ rest, 0x20 < unit := by
  unfold escapeByte
  split
  · rename_i letter hletter
    refine .inr ⟨[letter], rfl, List.forall_mem_singleton.mpr ?_⟩
    have hmem : letter ∈ letterEscapes.map Prod.snd := by
      obtain ⟨before, after, heq, -⟩ := List.lookup_eq_some_iff.mp hletter
      rw [heq, List.map_append]
      exact List.mem_append_right _ List.mem_cons_self
    have hall : (letterEscapes.map Prod.snd).all fun unit => decide (0x20 < unit) := by decide
    exact of_decide_eq_true (List.all_eq_true.mp hall letter hmem)
  · split
    · refine .inr ⟨_, rfl, ?_⟩
      have hdigit : ∀ n, 0x20 < octalDigit n := fun n =>
        UInt16.lt_of_lt_of_le (by decide) (octalDigit_range n).1
      exact List.forall_mem_cons.mpr ⟨hdigit _, List.forall_mem_cons.mpr ⟨hdigit _,
        List.forall_mem_singleton.mpr (hdigit _)⟩⟩
    · rename_i hrange
      exact .inl ⟨rfl, UInt8.not_lt.mp fun h => hrange (.inl h)⟩

/-- The arrow as the bytes of a name. -/
def arrowBytes : FileName := [0x20, 0x2D, 0x3E, 0x20]

/-- What is printed as a unit of the arrow is that byte. -/
theorem peel {byte : UInt8} (hbyte : byte ∈ arrowBytes) {others : JsString}
    (h : byte.toUInt16 :: others <+: name.flatMap escapeByte ++ [0x22]) :
    ∃ rest, name = byte :: rest ∧ others <+: rest.flatMap escapeByte ++ [0x22] := by
  have hquote : byte.toUInt16 ≠ 0x22 ∧ byte.toUInt16 ≠ 0x5C := by
    have hall : arrowBytes.all fun byte => byte.toUInt16 != 0x22 && byte.toUInt16 != 0x5C := by decide
    have hone := List.all_eq_true.mp hall byte hbyte
    rw [Bool.and_eq_true, bne_iff_ne, bne_iff_ne] at hone
    exact hone
  cases name with
  | nil => exact absurd (List.cons_prefix_cons.mp h).1 hquote.1
  | cons first rest =>
    rw [List.flatMap_cons] at h
    rcases escapeByte_cases first with ⟨hfirst, -⟩ | ⟨escaped, hfirst, -⟩
    · rw [hfirst] at h
      obtain ⟨hsame, hrest⟩ := List.cons_prefix_cons.mp h
      exact ⟨rest, by rw [UInt8.toUInt16_inj.mp hsame], hrest⟩
    · rw [hfirst] at h
      exact absurd (List.cons_prefix_cons.mp h).1 hquote.2

theorem arrow_begins (h : arrow <+: name.flatMap escapeByte ++ [0x22]) : arrowBytes <+: name := by
  obtain ⟨rest, rfl, hsecond⟩ := @peel name 0x20 (by decide) _ h
  obtain ⟨rest, rfl, hthird⟩ := @peel rest 0x2D (by decide) _ hsecond
  obtain ⟨rest, rfl, hlast⟩ := @peel rest 0x3E (by decide) _ hthird
  obtain ⟨rest, rfl, -⟩ := @peel rest 0x20 (by decide) _ hlast
  exact ⟨rest, rfl⟩

theorem arrow_occurs (h : arrow <:+: name.flatMap escapeByte ++ [0x22]) : arrowBytes <:+: name := by
  induction name with
  | nil =>
    have hlength := h.length_le
    exact absurd hlength (by decide)
  | cons first rest ih =>
    rcases escapeByte_cases first with ⟨hfirst, -⟩ | ⟨escaped, hfirst, hescaped⟩
    · by_cases hbegins : arrow <+: (first :: rest).flatMap escapeByte ++ [0x22]
      · exact (arrow_begins hbegins).isInfix
      · rw [List.flatMap_cons, hfirst] at h hbegins
        rcases List.infix_cons_iff.mp h with h | h
        · exact absurd h hbegins
        · exact (ih h).trans (List.suffix_cons first rest).isInfix
    · rw [List.flatMap_cons, List.append_assoc] at h
      have hspace : (0x20 : CodeUnit) ∉ escapeByte first := by
        rw [hfirst]
        intro hmem
        rcases List.mem_cons.mp hmem with hmem | hmem
        · exact absurd hmem (by decide)
        · exact UInt16.lt_irrefl _ (hescaped _ hmem)
      exact (ih (infix_of_head hspace h)).trans (List.suffix_cons first rest).isInfix

/-- An arrow that is printed is in the name. -/
theorem realName_arrow (h : arrow <:+: quotePath name) : arrow <:+: realName name := by
  by_cases hplain : Plain name
  · rwa [realName_plain hplain]
  · rw [quotePath_quoted hplain] at h
    have hoccurs : arrow <:+: name.flatMap escapeByte ++ [0x22] :=
      @infix_of_head _ 0x20 (units "-> ") [0x22] _ (by decide) h
    obtain ⟨before, after, rfl⟩ := arrow_occurs hoccurs
    have hascii : ∀ byte ∈ arrowBytes, byte < 0x80 := by
      have hall : arrowBytes.all fun byte => decide (byte < 0x80) := by decide
      exact fun byte hbyte => of_decide_eq_true (List.all_eq_true.mp hall byte hbyte)
    have hdecode := Utf8.decode_append_ascii before hascii (by decide) after
    rw [← List.append_assoc] at hdecode
    unfold realName
    rw [hdecode]
    exact ⟨Utf8.decode before, Utf8.decode after, List.append_assoc _ _ _⟩

/-- Names that are quoted are printed longer than they are. -/
theorem realName_ne_quoted (h : ¬ Plain name) : quotePath name ≠ realName name := by
  intro heq
  have hlength := Utf8.length_decode name
  have hescape : name.length ≤ (name.flatMap escapeByte).length := by
    rw [List.length_flatMap, ← List.length_map fun byte => (escapeByte byte).length]
    refine List.length_le_sum_of_one_le _ fun n hn => ?_
    obtain ⟨byte, -, rfl⟩ := List.mem_map.mp hn
    exact List.length_pos_iff.mpr (escapeByte_ne_nil byte)
  have hsame := congrArg List.length heq
  rw [quotePath_quoted h, List.length_cons, List.length_append] at hsame
  unfold realName at hsame
  rw [List.length_singleton] at hsame
  omega

end Names

/-! ## Paths -/

section Paths

/-- The text behind the first arrow in a printed origin. -/
def behindArrow (origin : FileName) : JsString := ((splitText arrow (quotePath origin))[1]?).getD []

/-- The path is not quoted, or the origin holds an arrow and the text behind that is the path's name. -/
def Entry.Readable (entry : Entry) : Prop :=
  match entry.origin with
  | none => Plain entry.path
  | some origin =>
    if arrow <:+: quotePath origin then behindArrow origin = realName entry.path
    else Plain entry.path

variable {path origin : FileName}

theorem no_arrow_plain (h : Plain path) : ¬ arrow <:+: quotePath path :=
  not_infix_of_head (quotePath_no_space h)

/-- The first piece of a printed name is its real name when it is not quoted, and never else. -/
theorem head_quotePath (path : FileName) :
    (splitText arrow (quotePath path)).head? = some (realName path) ↔ Plain path := by
  constructor
  · intro h
    by_contra hquoted
    by_cases harrow : arrow <:+: quotePath path
    · obtain ⟨piece, hpiece, hoccurs, -⟩ := @head_splitText _ arrow _ (by decide) (quotePath path)
      rw [hpiece] at h
      rw [Option.some.inj h] at hoccurs
      exact hoccurs (realName_arrow harrow)
    · rw [splitText_of_none harrow] at h
      exact realName_ne_quoted hquoted (Option.some.inj h)
  · intro h
    rw [splitText_of_none (no_arrow_plain h), realName_plain h]
    rfl

theorem readPath_eq (rest : JsString) : readPath rest =
    match breakAt arrow rest with
    | none => rest
    | some found => (splitText arrow found.2).head?.getD rest := by
  unfold readPath
  cases hbreak : breakAt arrow rest with
  | none => rfl
  | some found =>
    show (splitText arrow rest)[1]?.getD rest = (splitText arrow found.2).head?.getD rest
    rw [splitText_of_some (by decide) hbreak, List.head?_eq_getElem?]
    rfl

theorem readPath_single : readPath (quotePath path) = realName path ↔ Plain path := by
  rw [readPath_eq]
  cases hbreak : breakAt arrow (quotePath path) with
  | none =>
    rw [← head_quotePath, splitText_of_none (breakAt_eq_none.mp hbreak)]
    exact ⟨fun h => congrArg some h, fun h => Option.some.inj h⟩
  | some found =>
    have harrow : arrow <:+: quotePath path := by
      by_contra hnot
      rw [breakAt_eq_none.mpr hnot] at hbreak
      cases hbreak
    obtain ⟨piece, hpiece, hoccurs, -⟩ := @head_splitText _ arrow _ (by decide) found.2
    simp only []
    rw [hpiece]
    refine iff_of_false (fun h => hoccurs ?_) fun h => no_arrow_plain h harrow
    rw [show piece = realName path from h]
    exact realName_arrow harrow

/-- A printed name does not make an arrow with what stands behind it. -/
theorem noEarlier_quotePath (h : ¬ arrow <:+: quotePath origin) : NoEarlier arrow (quotePath origin) := by
  by_cases hplain : Plain origin
  · exact noEarlier_of_head (quotePath_no_space hplain)
  · rw [quotePath_quoted hplain, ← List.cons_append] at h ⊢
    exact noEarlier_of_last (by decide) h

theorem readPath_renamed (h : ¬ arrow <:+: quotePath origin) :
    readPath (quotePath origin ++ (arrow ++ quotePath path)) = realName path ↔ Plain path := by
  obtain ⟨piece, hpiece, -, -⟩ := @head_splitText _ arrow _ (by decide) (quotePath path)
  rw [readPath_eq, breakAt_eq_some (noEarlier_quotePath h), ← head_quotePath]
  simp only []
  rw [hpiece]
  exact ⟨fun h => congrArg some h, fun h => Option.some.inj h⟩

theorem readPath_arrow (h : arrow <:+: quotePath origin) :
    readPath (quotePath origin ++ (arrow ++ quotePath path)) = behindArrow origin := by
  have hquoted : ¬ Plain origin := fun hplain => no_arrow_plain hplain h
  obtain ⟨found, hfound⟩ := Option.ne_none_iff_exists'.mp (mt breakAt_eq_none.mp (not_not.mpr h))
  obtain ⟨htext, hearlier⟩ := of_breakAt hfound
  -- the quote that ends the origin is behind its first arrow
  obtain ⟨front, hfront⟩ : ∃ front, found.2 = front ++ [0x22] := by
    have hlast : (found.1 ++ (arrow ++ found.2)).getLast? = some 0x22 := by
      rw [← htext, quotePath_quoted hquoted, ← List.cons_append]
      exact List.getLast?_concat
    rw [← List.append_assoc] at hlast
    by_cases hnil : found.2 = []
    · rw [hnil, List.append_nil, List.getLast?_append_of_ne_nil _ (by decide)] at hlast
      exact absurd hlast (by decide)
    · rw [List.getLast?_append_of_ne_nil _ hnil] at hlast
      exact List.getLast?_eq_some_iff.mp hlast
  have hbehind : behindArrow origin = ((splitText arrow found.2).head?).getD [] := by
    unfold behindArrow
    rw [splitText_of_some (by decide) hfound, List.head?_eq_getElem?]
    rfl
  obtain ⟨piece, hpiece, -, -⟩ := @head_splitText _ arrow _ (by decide) found.2
  rw [hbehind, readPath_eq, htext, List.append_assoc, List.append_assoc, breakAt_eq_some hearlier]
  simp only []
  rw [hfront, head_splitText_append (by decide) (by decide), ← hfront, hpiece]
  rfl

theorem readPath_paths (entry : Entry) :
    readPath entry.paths = realName entry.path ↔ entry.Readable := by
  unfold Entry.paths Entry.Readable
  cases entry.origin with
  | none => exact readPath_single
  | some origin =>
    simp only []
    by_cases harrow : arrow <:+: quotePath origin
    · rw [if_pos harrow, readPath_arrow harrow]
    · rw [if_neg harrow]
      exact readPath_renamed harrow

end Paths

/-! ## Lines -/

section Reading

theorem quotePath_units (name : FileName) : ∀ unit ∈ quotePath name, 0x20 ≤ unit := by
  have hbyte : ∀ byte : UInt8, 0x20 ≤ byte → (0x20 : CodeUnit) ≤ byte.toUInt16 := fun byte h => by
    rw [UInt16.le_iff_toNat_le, UInt8.toNat_toUInt16]
    exact UInt8.le_iff_toNat_le.mp h
  by_cases hplain : Plain name
  · rw [quotePath_plain hplain, List.forall_mem_map]
    exact fun byte hmem => hbyte byte (UInt8.le_of_lt (plain_byte hplain hmem).1)
  · rw [quotePath_quoted hplain]
    refine List.forall_mem_cons.mpr ⟨by decide, List.forall_mem_append.mpr
      ⟨fun unit hunit => ?_, List.forall_mem_singleton.mpr (by decide)⟩⟩
    obtain ⟨byte, -, hescaped⟩ := List.mem_flatMap.mp hunit
    rcases escapeByte_cases byte with ⟨hsame, hlow⟩ | ⟨rest, hrest, hvisible⟩
    · rw [hsame, List.mem_singleton] at hescaped
      rw [hescaped]
      exact hbyte byte hlow
    · rw [hrest] at hescaped
      rcases List.mem_cons.mp hescaped with rfl | hescaped
      · decide
      · exact UInt16.le_of_lt (hvisible unit hescaped)

theorem newline_not_mem {text : JsString} (h : ∀ unit ∈ text, 0x20 ≤ unit) : newline ∉ text :=
  fun hmem => absurd (h newline hmem) (by decide)

theorem paths_units (entry : Entry) : ∀ unit ∈ entry.paths, 0x20 ≤ unit := by
  have harrow : ∀ unit ∈ arrow, 0x20 ≤ unit := by
    have hall : arrow.all fun unit => decide (0x20 ≤ unit) := by decide
    exact fun unit hunit => of_decide_eq_true (List.all_eq_true.mp hall unit hunit)
  unfold Entry.paths
  cases entry.origin with
  | none => exact quotePath_units _
  | some origin =>
    exact List.forall_mem_append.mpr ⟨quotePath_units origin,
      List.forall_mem_append.mpr ⟨harrow, quotePath_units _⟩⟩

theorem Change.letter_range (change : Change) : 0x20 ≤ change.letter := by
  cases change with
  | _ => decide

theorem entry_no_newline (entry : Entry) : newline ∉ entry.line := by
  refine newline_not_mem ?_
  have hpaths := paths_units entry
  cases entry with
  | untracked path =>
    exact List.forall_mem_cons.mpr ⟨by decide, List.forall_mem_cons.mpr ⟨by decide,
      List.forall_mem_cons.mpr ⟨by decide, hpaths⟩⟩⟩
  | tracked index workTree changed origin path =>
    exact List.forall_mem_cons.mpr ⟨index.letter_range, List.forall_mem_cons.mpr
      ⟨workTree.letter_range, List.forall_mem_cons.mpr ⟨by decide, hpaths⟩⟩⟩

theorem header_no_newline (header : Header) : newline ∉ header.line := by
  have hname : ∀ name : RefName, newline ∉ name.text := fun name hmem =>
    absurd (name.visible _ hmem) (by decide)
  have happend : ∀ first second : JsString, newline ∉ first → newline ∉ second →
      newline ∉ first ++ second := fun first second hfirst hsecond hmem =>
    (List.mem_append.mp hmem).elim hfirst hsecond
  refine happend _ _ (by decide) ?_
  cases header with
  | detached => decide
  | onBranch unborn name upstream =>
    refine happend _ _ ?_ (happend _ _ (hname name) ?_)
    · cases unborn with
      | _ => decide
    · cases upstream with
      | none => exact List.not_mem_nil
      | some found =>
        exact happend _ _ (by decide) (happend _ _ (hname found.1) (found.2.not_mem rfl (by decide)))

/-- The lines that are read are the printed ones, and an empty one. -/
theorem splitOn_lines (lines : List JsString) (h : ∀ line ∈ lines, newline ∉ line) :
    (lines.flatMap (· ++ [newline])).splitOn newline = lines ++ [[]] := by
  have hjoin : lines.flatMap (· ++ [newline]) = [newline].intercalate (lines ++ [[]]) := by
    induction lines with
    | nil => rfl
    | cons line rest ih =>
      rw [List.cons_append, List.intercalate_cons_of_ne_nil
        (List.append_ne_nil_of_right_ne_nil rest (List.cons_ne_nil _ _)), List.flatMap_cons,
        ih fun other hother => h other (List.mem_cons_of_mem line hother)]
  rw [hjoin]
  refine List.splitOn_intercalate newline (fun line hline => ?_) ?_
  · rcases List.mem_append.mp hline with hline | hline
    · exact h line hline
    · rw [List.mem_singleton.mp hline]
      exact List.not_mem_nil
  · exact List.append_ne_nil_of_right_ne_nil lines (List.cons_ne_nil _ _)

/-- The path of an entry as it is read. -/
def Entry.readName (entry : Entry) : JsString := readPath entry.paths

theorem Change.letter_ne (change : Change) : change.letter ≠ 0x3F ∧ change.letter ≠ 0x23 := by
  cases change with
  | _ => decide

theorem Change.letter_changed (change : Change) :
    (change.letter ≠ 0x20 ∧ change.letter ≠ 0x3F) ↔ (change != .unmodified) = true := by
  cases change with
  | _ => decide

theorem append_if {p : Prop} [Decidable p] (paths : List JsString) (path : JsString) :
    (if p then paths ++ [path] else paths) = paths ++ if p then [path] else [] := by
  by_cases hp : p
  · rw [if_pos hp, if_pos hp]
  · rw [if_neg hp, if_neg hp, List.append_nil]

theorem readLine_entry (status : PorcelainStatus) (entry : Entry) :
    readLine status entry.line =
      { status with
        staged := status.staged ++ if entry.isStaged then [entry.readName] else []
        unstaged := status.unstaged ++ if entry.isUnstaged then [entry.readName] else []
        untracked := status.untracked ++ if entry.isUntracked then [entry.readName] else [] } := by
  cases entry with
  | untracked path =>
    show { status with untracked := status.untracked ++ [readPath _] } = _
    simp only [Entry.isStaged, Entry.isUnstaged, Entry.isUntracked, if_false, if_true,
      Bool.false_eq_true, List.append_nil]
    rfl
  | tracked index workTree changed origin path =>
    have hheader : ¬ units "## " <+: (Entry.tracked index workTree changed origin path).line := fun h =>
      index.letter_ne.2 (List.cons_prefix_cons.mp h).1.symm
    unfold readLine
    rw [if_neg hheader]
    show readEntry index.letter workTree.letter (Entry.tracked index workTree changed origin path).paths
      status = _
    unfold readEntry
    simp only []
    rw [if_neg fun h => index.letter_ne.1 h.1, append_if, append_if]
    simp only [Entry.isStaged, Entry.isUnstaged, Entry.isUntracked, Change.letter_changed,
      Bool.false_eq_true, if_false, List.append_nil]
    rfl

/-- The paths of the entries are listed one after another. -/
theorem foldl_entries (entries : List Entry) (status : PorcelainStatus) :
    (entries.map Entry.line).foldl readLine status =
      { status with
        staged := status.staged ++ (entries.filter Entry.isStaged).map Entry.readName
        unstaged := status.unstaged ++ (entries.filter Entry.isUnstaged).map Entry.readName
        untracked := status.untracked ++ (entries.filter Entry.isUntracked).map Entry.readName } := by
  have hstep : ∀ (listed : Bool) (paths : List JsString) (entry : Entry) (rest : List Entry),
      (paths ++ if listed = true then [entry.readName] else []) ++ rest.map Entry.readName =
        paths ++ (if listed = true then entry :: rest else rest).map Entry.readName := by
    intro listed paths entry rest
    cases listed with
    | false => exact congrArg (· ++ rest.map Entry.readName) (List.append_nil paths)
    | true => exact List.append_assoc _ _ _
  induction entries generalizing status with
  | nil =>
    simp only [List.map_nil, List.filter_nil, List.append_nil]
    rfl
  | cons entry rest ih =>
    rw [List.map_cons, List.foldl_cons, readLine_entry, ih, List.filter_cons, List.filter_cons,
      List.filter_cons]
    simp only [hstep]

theorem readLine_header (status : PorcelainStatus) (header : Header) :
    readLine status header.line =
      { status with
        branch := parseBranchLine header.line
        upstream := (parseBranchTracking header.line).upstream
        ahead := (parseBranchTracking header.line).ahead
        behind := (parseBranchTracking header.line).behind } := by
  unfold readLine
  rw [if_pos (show units "## " <+: header.line from List.prefix_append _ _)]

/-- Every entry is listed. -/
theorem listed (entry : Entry) :
    entry.isStaged = true ∨ entry.isUnstaged = true ∨ entry.isUntracked = true := by
  cases entry with
  | untracked path => exact .inr (.inr rfl)
  | tracked index workTree changed origin path =>
    rcases changed with h | h
    · exact .inl (bne_iff_ne.mpr h)
    · exact .inr (.inl (bne_iff_ne.mpr h))

theorem clean_eq (entries : List Entry) :
    (((entries.filter Entry.isStaged).map Entry.readName).isEmpty &&
      ((entries.filter Entry.isUnstaged).map Entry.readName).isEmpty &&
      ((entries.filter Entry.isUntracked).map Entry.readName).isEmpty) = entries.isEmpty := by
  cases entries with
  | nil => rfl
  | cons entry rest =>
    rw [show (entry :: rest).isEmpty = false from rfl, ← Bool.not_eq_true, Bool.and_eq_true,
      Bool.and_eq_true, List.isEmpty_iff, List.isEmpty_iff, List.isEmpty_iff, List.map_eq_nil_iff,
      List.map_eq_nil_iff, List.map_eq_nil_iff, List.filter_eq_nil_iff, List.filter_eq_nil_iff,
      List.filter_eq_nil_iff]
    rintro ⟨⟨hstaged, hunstaged⟩, huntracked⟩
    rcases listed entry with h | h | h
    · exact hstaged entry List.mem_cons_self h
    · exact hunstaged entry List.mem_cons_self h
    · exact huntracked entry List.mem_cons_self h

/-- The output is read line by line. -/
theorem parsePorcelain_print (header : Header) (entries : List Entry) :
    parsePorcelain (printStatus header entries) =
      { staged := (entries.filter Entry.isStaged).map Entry.readName
        unstaged := (entries.filter Entry.isUnstaged).map Entry.readName
        untracked := (entries.filter Entry.isUntracked).map Entry.readName
        clean := entries.isEmpty
        branch := parseBranchLine header.line
        upstream := (parseBranchTracking header.line).upstream
        ahead := (parseBranchTracking header.line).ahead
        behind := (parseBranchTracking header.line).behind } := by
  have hlines : ∀ line ∈ header.line :: entries.map Entry.line, newline ∉ line := by
    refine List.forall_mem_cons.mpr ⟨header_no_newline header, ?_⟩
    rw [List.forall_mem_map]
    exact fun entry _ => entry_no_newline entry
  have hempty : ∀ status, readLine status [] = status := fun _ => rfl
  unfold parsePorcelain printStatus
  simp only []
  rw [splitOn_lines _ hlines, List.foldl_append]
  simp only [List.foldl_cons, List.foldl_nil, hempty, readLine_header, foldl_entries]
  rw [← clean_eq]
  rfl

end Reading

/-! ## The status read back -/

theorem map_readName_iff {p : Entry → Bool} {entries : List Entry} :
    (entries.filter p).map Entry.readName = (entries.filter p).map (fun entry => realName entry.path) ↔
      ∀ entry ∈ entries, p entry = true → entry.Readable := by
  rw [List.map_inj_left]
  constructor
  · exact fun h entry hentry hp => (readPath_paths entry).mp (h entry (List.mem_filter.mpr ⟨hentry, hp⟩))
  · intro h entry hentry
    obtain ⟨hmem, hp⟩ := List.mem_filter.mp hentry
    exact (readPath_paths entry).mpr (h entry hmem hp)

/-- The status that is read is that of the repository exactly when its header is read and its paths are
readable. -/
theorem status_read_iff (header : Header) (entries : List Entry) :
    parsePorcelain (printStatus header entries) = statusOf header entries ↔
      HeaderRead header ∧ ∀ entry ∈ entries, entry.Readable := by
  rw [parsePorcelain_print, ← header_read_iff]
  constructor
  · intro h
    refine ⟨⟨congrArg PorcelainStatus.branch h, ?_⟩, fun entry hentry => ?_⟩
    · have hupstream := congrArg PorcelainStatus.upstream h
      have hahead := congrArg PorcelainStatus.ahead h
      have hbehind := congrArg PorcelainStatus.behind h
      exact Tracking.ext hupstream hahead hbehind
    · have hgit := congrArg PorcelainStatus.toGitStatus h
      rcases listed entry with hp | hp | hp
      · exact map_readName_iff.mp (congrArg GitStatus.staged hgit) entry hentry hp
      · exact map_readName_iff.mp (congrArg GitStatus.unstaged hgit) entry hentry hp
      · exact map_readName_iff.mp (congrArg GitStatus.untracked hgit) entry hentry hp
  · rintro ⟨⟨hbranch, htracking⟩, hentries⟩
    have hlist : ∀ p : Entry → Bool, (entries.filter p).map Entry.readName =
        (entries.filter p).map fun entry => realName entry.path := fun p =>
      map_readName_iff.mpr fun entry hentry _ => hentries entry hentry
    rw [hlist, hlist, hlist, hbranch, htracking]
    rfl

/-- An untracked `a -> b` is read as a file `b"` that is not there. -/
theorem arrow_misread :
    (¬ ∀ header entries, parsePorcelain (printStatus header entries) = statusOf header entries) ∧
      (parsePorcelain (printStatus .detached [.untracked [0x61, 0x20, 0x2D, 0x3E, 0x20, 0x62]])).untracked =
        [units "b\""] ∧
      (statusOf .detached [.untracked [0x61, 0x20, 0x2D, 0x3E, 0x20, 0x62]]).untracked =
        [units "a -> b"] := by
  have hread : (parsePorcelain (printStatus .detached
      [.untracked [0x61, 0x20, 0x2D, 0x3E, 0x20, 0x62]])).untracked = [units "b\""] := by
    decide
  have hreal : (statusOf .detached [.untracked [0x61, 0x20, 0x2D, 0x3E, 0x20, 0x62]]).untracked =
      [units "a -> b"] := by
    decide
  refine ⟨fun h => ?_, hread, hreal⟩
  have hsame := congrArg (fun status => status.untracked) (h .detached
    [.untracked [0x61, 0x20, 0x2D, 0x3E, 0x20, 0x62]])
  rw [hread, hreal] at hsame
  exact absurd hsame (by decide)

end QuokyPlatform.CodeWork
