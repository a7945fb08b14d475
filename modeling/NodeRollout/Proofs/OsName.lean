import Mathlib.Data.List.Basic
import NodeRollout.Agent.OsRelease
import NodeRollout.Proofs.Trimming
import NodeRollout.Proofs.WrittenLines

/-! The name that an os-release file gives. Only the first line that assigns it counts: whatever its
indentation, its quotes and the ends of the lines, the name is read back as it was written, and
nothing behind that line matters. -/
namespace NodeRollout.OsRelease

open Text

variable {text line name tail indent trail : List Char}

/-- How a line ends. -/
inductive LineEnd where
  | feed
  | returnFeed

def LineEnd.chars : LineEnd → List Char
  | .feed => ['\n']
  | .returnFeed => ['\r', '\n']

/-- A line without its end, and how it ends. -/
abbrev Ended := List Char × LineEnd

/-- Lines written one after another. -/
def written (before : List Ended) : List Char := before.flatMap fun line => line.1 ++ line.2.chars

/-- What follows a line: nothing, or its end and anything. -/
inductive Follows : List Char → Prop where
  | nothing : Follows []
  | more (ending : LineEnd) (rest : List Char) : Follows (ending.chars ++ rest)

/-- The line gives the name. -/
def Assigns (line : List Char) : Prop := key <+: stripEnds isBlank line

instance (line : List Char) : Decidable (Assigns line) :=
  inferInstanceAs (Decidable (key <+: stripEnds isBlank line))

/-- Text split at its first line that gives the name. -/
structure FirstAt (before : List Ended) (line tail : List Char) : Prop where
  quiet : ∀ other ∈ before, '\n' ∉ other.1 ∧ ¬ Assigns other.1
  oneLine : '\n' ∉ line
  assigns : Assigns line
  follows : Follows tail

/-- The value of a line that gives the name. -/
def assigned (line : List Char) : List Char :=
  stripEnds isQuote ((stripEnds isBlank line).drop key.length)

theorem valueOf?_eq (h : Assigns line) : valueOf? line = some (assigned line) :=
  if_pos (List.isPrefixOf_iff_prefix.mpr h)

theorem valueOf?_eq_none (h : ¬ Assigns line) : valueOf? line = none :=
  if_neg fun hkey => h (List.isPrefixOf_iff_prefix.mp hkey)

/-- A carriage return at the end of a line is white space. -/
theorem valueOf?_returned (line : List Char) : valueOf? (line ++ ['\r']) = valueOf? line := by
  have hreturn : ∀ c ∈ ['\r'], isBlank c = true := List.forall_mem_singleton.mpr (by decide)
  have hstrip : stripEnds isBlank ([] ++ line ++ ['\r']) = stripEnds isBlank line :=
    stripEnds_around (List.forall_mem_nil _) hreturn
  rw [valueOf?, valueOf?, ← hstrip, List.nil_append]

section Lines

theorem lines_eq_splitOn (text : List Char) : lines text = text.splitOn '\n' := by
  induction text with
  | nil => rfl
  | cons c text ih =>
    rw [lines, ih, List.splitOn_cons_eq_if_modifyHead]
    by_cases hc : c = '\n'
    · rw [if_pos hc, if_pos (beq_iff_eq.mpr hc)]
    · rw [if_neg hc, if_neg (by simpa using hc)]
      cases hsplit : text.splitOn '\n' with
      | nil => exact absurd hsplit (List.splitOn_ne_nil '\n' text)
      | cons first rest => rfl

/-- The first value in a text. -/
def value? (text : List Char) : Option (List Char) := (text.splitOn '\n').findSome? valueOf?

theorem imageName_eq (content : String) :
    imageName content = String.ofList ((value? content.toList).getD []) := by
  rw [imageName, lines_eq_splitOn, value?]

theorem value?_of_not_mem (hline : '\n' ∉ line) : value? line = valueOf? line := by
  rw [value?, List.splitOn_eq_singleton hline, List.findSome?_singleton]

theorem value?_feed (hline : '\n' ∉ line) (rest : List Char) :
    value? (line ++ '\n' :: rest) = (valueOf? line).or (value? rest) := by
  rw [value?, List.splitOn_append_cons_self_of_not_mem hline, List.findSome?_cons]
  cases valueOf? line with
  | none => rfl
  | some value => rfl

theorem value?_ended (hline : '\n' ∉ line) (ending : LineEnd) (rest : List Char) :
    value? (line ++ ending.chars ++ rest) = (valueOf? line).or (value? rest) := by
  cases ending with
  | feed =>
    rw [List.append_assoc]
    exact value?_feed hline rest
  | returnFeed =>
    have hreturned : '\n' ∉ line ++ ['\r'] := by simpa using hline
    have hsplit : line ++ LineEnd.chars .returnFeed ++ rest = line ++ ['\r'] ++ '\n' :: rest := by
      simp [LineEnd.chars]
    rw [hsplit, value?_feed hreturned, valueOf?_returned]

theorem value?_follows (hline : '\n' ∉ line) (hassigns : Assigns line) (htail : Follows tail) :
    value? (line ++ tail) = some (assigned line) := by
  cases htail with
  | nothing => rw [List.append_nil, value?_of_not_mem hline, valueOf?_eq hassigns]
  | more ending rest =>
    rw [← List.append_assoc, value?_ended hline, valueOf?_eq hassigns]
    rfl

theorem value?_written {before : List Ended}
    (h : ∀ other ∈ before, '\n' ∉ other.1 ∧ ¬ Assigns other.1) (rest : List Char) :
    value? (written before ++ rest) = value? rest := by
  induction before with
  | nil => rfl
  | cons first before ih =>
    obtain ⟨⟨hline, hno⟩, hbefore⟩ := List.forall_mem_cons.mp h
    have hsplit : written (first :: before) ++ rest =
        first.1 ++ first.2.chars ++ (written before ++ rest) := by
      simp [written]
    rw [hsplit, value?_ended hline, valueOf?_eq_none hno, Option.none_or, ih hbefore]

theorem FirstAt.value?_eq {before : List Ended} (h : FirstAt before line tail) :
    value? (written before ++ line ++ tail) = some (assigned line) := by
  rw [List.append_assoc, value?_written h.quiet, value?_follows h.oneLine h.assigns h.follows]

theorem FirstAt.replace {before : List Ended} {other : List Char} (h : FirstAt before line tail)
    (hother : Follows other) : FirstAt before line other :=
  ⟨h.quiet, h.oneLine, h.assigns, hother⟩

/-- A text has a first line that gives the name, or none that does. -/
theorem exists_firstAt (text : List Char) :
    (∀ line ∈ text.splitOn '\n', ¬ Assigns line) ∨
      ∃ before line tail, text = written before ++ line ++ tail ∧ FirstAt before line tail := by
  -- the recursion is on what follows the first line
  by_cases hfeed : '\n' ∈ text
  · obtain ⟨first, rest, htext, hfirst⟩ := List.eq_append_cons_of_mem hfeed
    by_cases hassigns : Assigns first
    · right
      exact ⟨[], first, '\n' :: rest, htext, by simp, hfirst, hassigns, .more .feed rest⟩
    · have hshorter : rest.length < text.length := by
        rw [htext, List.length_append, List.length_cons]
        omega
      rcases exists_firstAt rest with hnone | ⟨before, line, tail, hrest, hat⟩
      · left
        rw [htext, List.splitOn_append_cons_self_of_not_mem hfirst]
        exact List.forall_mem_cons.mpr ⟨hassigns, hnone⟩
      · right
        refine ⟨(first, .feed) :: before, line, tail, ?_, ?_⟩
        · rw [htext, hrest]
          simp [written, LineEnd.chars]
        · exact ⟨List.forall_mem_cons.mpr ⟨⟨hfirst, hassigns⟩, hat.quiet⟩, hat.oneLine, hat.assigns,
            hat.follows⟩
  · by_cases hassigns : Assigns text
    · right
      exact ⟨[], text, [], by simp [written], by simp, hfeed, hassigns, .nothing⟩
    · left
      rw [List.splitOn_eq_singleton hfeed]
      exact List.forall_mem_singleton.mpr hassigns
termination_by text.length

theorem value?_eq_none (h : ∀ line ∈ text.splitOn '\n', ¬ Assigns line) : value? text = none := by
  rw [value?, List.findSome?_eq_none_iff]
  intro line hline
  exact valueOf?_eq_none (h line hline)

end Lines

section Names

/-- How a name is quoted. -/
inductive Quotes where
  | bare
  | double
  | single

def Quotes.mark : Quotes → List Char
  | .bare => []
  | .double => ['"']
  | .single => ['\'']

def Quotes.around (quotes : Quotes) (name : List Char) : List Char :=
  quotes.mark ++ name ++ quotes.mark

/-- A name on one line that neither quotes nor white space end. -/
structure IsName (name : List Char) : Prop where
  oneLine : '\n' ∉ name
  head : ∀ c ∈ name.head?, isQuote c = false ∧ isBlank c = false
  last : ∀ c ∈ name.getLast?, isQuote c = false ∧ isBlank c = false

/-- White space within a line. -/
def Margin (cs : List Char) : Prop := ∀ c ∈ cs, isBlank c = true ∧ c ≠ '\n'

theorem kind_of_mem_mark {quotes : Quotes} {c : Char} (h : c ∈ quotes.mark) :
    isQuote c = true ∧ isBlank c = false := by
  cases quotes with
  | bare => cases h
  | double =>
    rw [List.mem_singleton.mp h]
    decide
  | single =>
    rw [List.mem_singleton.mp h]
    decide

theorem stripEnds_quoted (hname : IsName name) (quotes : Quotes) :
    stripEnds isQuote (quotes.around name) = name := by
  have hmark : ∀ c ∈ quotes.mark, isQuote c = true := fun c hc => (kind_of_mem_mark hc).1
  rw [Quotes.around, stripEnds_around hmark hmark]
  exact stripEnds_of_ends (fun c hc => (hname.head c hc).1) fun c hc => (hname.last c hc).1

/-- What ends two texts that follow each other is at the end of one of them. -/
theorem last_append {p : Char → Prop} {first second : List Char}
    (hfirst : ∀ c ∈ first.getLast?, p c) (hsecond : ∀ c ∈ second.getLast?, p c) :
    ∀ c ∈ (first ++ second).getLast?, p c := by
  intro c hc
  rw [List.getLast?_append] at hc
  rcases Option.or_eq_some_iff.mp hc with hlast | ⟨-, hlast⟩
  · exact hsecond c hlast
  · exact hfirst c hlast

theorem isBlank_last_quoted (hname : IsName name) (quotes : Quotes) :
    ∀ c ∈ (key ++ quotes.around name).getLast?, isBlank c = false := by
  have hkey : ∀ c ∈ key.getLast?, isBlank c = false := by
    intro c hc
    have hequals : '=' = c := Option.some.inj hc
    rw [← hequals]
    decide
  have hmark : ∀ c ∈ quotes.mark.getLast?, isBlank c = false :=
    fun c hc => (kind_of_mem_mark (List.mem_of_getLast? hc)).2
  have hlast : ∀ c ∈ name.getLast?, isBlank c = false := fun c hc => (hname.last c hc).2
  exact last_append hkey (last_append (last_append hmark hlast) hmark)

theorem stripEnds_assignment (hname : IsName name) (quotes : Quotes) (hindent : Margin indent)
    (htrail : Margin trail) :
    stripEnds isBlank (indent ++ (key ++ quotes.around name) ++ trail) =
      key ++ quotes.around name := by
  rw [stripEnds_around (fun c hc => (hindent c hc).1) fun c hc => (htrail c hc).1]
  apply stripEnds_of_ends
  · intro c hc
    have hfirst : 'P' = c := Option.some.inj hc
    rw [← hfirst]
    decide
  · exact isBlank_last_quoted hname quotes

/-- A line that assigns a name. -/
theorem firstAt_assignment {before : List Ended} (hname : IsName name) (quotes : Quotes)
    (hquiet : ∀ other ∈ before, '\n' ∉ other.1 ∧ ¬ Assigns other.1) (hindent : Margin indent)
    (htrail : Margin trail) (htail : Follows tail) :
    FirstAt before (indent ++ (key ++ quotes.around name) ++ trail) tail where
  quiet := hquiet
  oneLine := by
    have hkey : '\n' ∉ key := by decide
    have hmark : '\n' ∉ quotes.mark := by cases quotes <;> decide
    simp only [Quotes.around, List.mem_append, not_or]
    exact ⟨⟨fun h => (hindent _ h).2 rfl, hkey, ⟨hmark, hname.oneLine⟩, hmark⟩,
      fun h => (htrail _ h).2 rfl⟩
  assigns := by
    rw [Assigns, stripEnds_assignment hname quotes hindent htrail]
    exact List.prefix_append ..
  follows := htail

theorem assigned_assignment (hname : IsName name) (quotes : Quotes) (hindent : Margin indent)
    (htrail : Margin trail) :
    assigned (indent ++ (key ++ quotes.around name) ++ trail) = name := by
  rw [assigned, stripEnds_assignment hname quotes hindent htrail, List.drop_left,
    stripEnds_quoted hname quotes]

end Names

/-- What reading an os-release file with this text gives. -/
def read (text : List Char) : Except Failure String :=
  ofFile (.ok (String.ofList text).toUTF8.toList)

theorem read_eq (text : List Char) : read text = .ok (String.ofList ((value? text).getD [])) := by
  simp only [read, ofFile, ofBytes?_toUTF8, imageName_eq, String.toList_ofList]

theorem FirstAt.read_eq {before : List Ended} (h : FirstAt before line tail) :
    read (written before ++ line ++ tail) = .ok (String.ofList (assigned line)) := by
  rw [OsRelease.read_eq, h.value?_eq, Option.getD_some]

/-- A name is read as it was written. Every text gives a name without quotes at its ends, and one
that its first line to assign it decides alone; a text without such a line gives the empty name. -/
theorem reads_name :
    (∀ (name indent trail tail : List Char) (quotes : Quotes) (before : List Ended), IsName name →
      (∀ other ∈ before, '\n' ∉ other.1 ∧ ¬ Assigns other.1) → Margin indent → Margin trail →
      Follows tail →
      read (written before ++ (indent ++ (key ++ quotes.around name) ++ trail) ++ tail) =
        .ok (String.ofList name)) ∧
    ∀ text, ∃ name, read text = .ok (String.ofList name) ∧
      (∀ c, c ∈ name.head? ∨ c ∈ name.getLast? → isQuote c = false) ∧
      ((∀ line ∈ text.splitOn '\n', ¬ Assigns line) ∧ name = [] ∨
        ∃ before line tail, text = written before ++ line ++ tail ∧ FirstAt before line tail ∧
          ∀ other, Follows other →
            read (written before ++ line ++ other) = .ok (String.ofList name)) := by
  constructor
  · intro name indent trail tail quotes before hname hquiet hindent htrail htail
    have hat := firstAt_assignment hname quotes hquiet hindent htrail htail
    rw [hat.read_eq, assigned_assignment hname quotes hindent htrail]
  · intro text
    rcases exists_firstAt text with hnone | ⟨before, line, tail, htext, hat⟩
    · refine ⟨[], ?_, by simp, .inl ⟨hnone, rfl⟩⟩
      rw [read_eq, value?_eq_none hnone, Option.getD_none]
    · have hcore := isCore_stripEnds isQuote ((stripEnds isBlank line).drop key.length)
      refine ⟨assigned line, ?_, ?_, .inr ⟨before, line, tail, htext, hat, ?_⟩⟩
      · rw [htext, hat.read_eq]
      · rintro c (hc | hc)
        · exact hcore.head c hc
        · exact hcore.last c hc
      · intro other hother
        exact (hat.replace hother).read_eq

/-- A file with a comment that mentions the name, and the name itself in single quotes between white
space. -/
def indentedFile : String :=
  "# PRETTY_NAME=x\r\n\t PRETTY_NAME='Fedora \"CoreOS\" 40' \r\nPRETTY_NAME=y"

theorem reads_name_indented : read indentedFile.toList = .ok "Fedora \"CoreOS\" 40" := by
  let name := "Fedora \"CoreOS\" 40".toList
  let before : List Ended := [("# PRETTY_NAME=x".toList, .returnFeed)]
  have hname : IsName name := by
    refine ⟨by decide, ?_, ?_⟩
    · rintro _ ⟨⟩
      decide
    · rintro _ ⟨⟩
      decide
  have hquiet : ∀ other ∈ before, '\n' ∉ other.1 ∧ ¬ Assigns other.1 := by decide
  have hindent : Margin ['\t', ' '] := by simp [Margin, isBlank]
  have htrail : Margin [' '] := by simp [Margin, isBlank]
  have htail : Follows (LineEnd.returnFeed.chars ++ "PRETTY_NAME=y".toList) := .more _ _
  have htext : indentedFile.toList = written before ++ (['\t', ' '] ++
      (key ++ Quotes.single.around name) ++ [' ']) ++
        (LineEnd.returnFeed.chars ++ "PRETTY_NAME=y".toList) := by decide +kernel
  have hread := reads_name.1 name _ _ _ .single before hname hquiet hindent htrail htail
  rw [htext, hread, String.ofList_toList]

end NodeRollout.OsRelease
