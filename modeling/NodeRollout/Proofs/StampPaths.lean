import Mathlib.Data.List.Basic
import Mathlib.Tactic.SplitIfs
import NodeRollout.Agent.FileTree
import NodeRollout.Agent.Stamp
import NodeRollout.Proofs.LabelMap

/-! Where stamps lie. The name of a stamp has no separator and is no name of a directory's own, so
the path of a stamp is one file of the stamp directory, whatever the version is, and two versions
have one stamp exactly when only separators tell them apart. In a tree of files the writing of a
stamp changes nothing but this file. -/
namespace NodeRollout

namespace FileTree

theorem names_append (a b : String) : names (a ++ "/" ++ b) = names a ++ names b := by
  have hslash : "/".toList = ['/'] := by decide
  simp only [names, String.toList_append, hslash, List.append_assoc, List.singleton_append,
    List.splitOn_append_cons_self, List.filter_append, List.map_append]

/-- A slash at the end names nothing more. -/
theorem names_slash (a : String) : names (a ++ "/") = names a := by
  have hempty : names "" = [] := by decide
  have hnames := names_append a ""
  rw [String.append_empty, hempty, List.append_nil] at hnames
  exact hnames

theorem names_plain {name : String} (hslash : '/' ∉ name.toList) (hne : name ≠ "") :
    names name = [name] := by
  have hsome : name.toList.isEmpty = false := by
    rw [List.isEmpty_eq_false_iff]
    exact fun hnil => hne (String.toList_eq_nil_iff.mp hnil)
  rw [names, List.splitOn_eq_singleton hslash, List.filter_cons_of_pos (by simp [hsome])]
  simp

/-- A path that begins with no slash names something first. -/
theorem names_ne_nil {path : String} {c : Char} (hhead : path.toList.head? = some c)
    (hc : c ≠ '/') : names path ≠ [] := by
  cases hpath : path.toList with
  | nil =>
    rw [hpath] at hhead
    cases hhead
  | cons d rest =>
    have hd : d = c := by
      rw [hpath] at hhead
      exact Option.some.inj hhead
    obtain ⟨first, parts, hparts⟩ := List.exists_cons_of_ne_nil (List.splitOn_ne_nil '/' rest)
    simp [names, hpath, List.splitOn_cons_eq_if_modifyHead, hd, hc, hparts]

end FileTree

namespace Path

/-- A part of a path. -/
inductive Part where
  | root
  | here
  | above
  | name (text : String)
  deriving DecidableEq

/-- What a name adds to a path: a dot nothing, and two dots the directory above. -/
def part? (name : String) : Option Part :=
  if name = "." then none else if name = ".." then some .above else some (.name name)

/-- What a path starts from: the root, the directory that a dot in front stands for, or nothing. -/
def start (path : String) : List Part :=
  if path.toList.head? = some '/' then [.root]
  else if (FileTree.names path).head? = some "." then [.here]
  else []

/-- The parts of a path. Paths with the same parts are the same. -/
def parts (path : String) : List Part := start path ++ (FileTree.names path).filterMap part?

/-- The directory that a path is in. The root is in none, and neither is the empty path. -/
def parent? (path : String) : Option (List Part) :=
  if parts path = [] ∨ parts path = [.root] then none else some (parts path).dropLast

variable {dir path name : String}

theorem part?_plain (hdot : name ≠ ".") (hdots : name ≠ "..") : part? name = some (.name name) := by
  rw [part?, if_neg hdot, if_neg hdots]

theorem parent?_of_concat (h : parts path = parts dir ++ [.name name]) :
    parent? path = some (parts dir) := by
  have hin : ¬ (parts path = [] ∨ parts path = [.root]) := by
    rw [h]
    rintro (hnil | hroot)
    · exact List.concat_ne_nil _ _ hnil
    · have hlast := congrArg List.getLast? hroot
      rw [List.getLast?_concat] at hlast
      cases hlast
  rw [parent?, if_neg hin, h, List.dropLast_concat]

end Path

namespace Stamp

variable {dir v w : String}

theorem toList_fileName (version : String) : (fileName version).toList =
    "kubeadm-upgrade-".toList ++ version.toList.map replace ++ ".done".toList := by
  have hversion : (String.ofList (version.toList.map replace)).toList =
      version.toList.map replace := String.toList_ofList
  show ("kubeadm-upgrade-" ++ String.ofList (version.toList.map replace) ++ ".done").toList = _
  rw [String.toList_append, String.toList_append, hversion]

theorem head?_fileName (version : String) : (fileName version).toList.head? = some 'k' := by
  rw [toList_fileName]
  rfl

theorem replace_ne (c : Char) : replace c ≠ '/' ∧ replace c ≠ '\\' := by
  by_cases h : c = '/' ∨ c = '\\'
  · rw [replace, if_pos h]
    decide
  · rw [replace, if_neg h]
    exact not_or.mp h

theorem not_mem_fileName (version : String) :
    '/' ∉ (fileName version).toList ∧ '\\' ∉ (fileName version).toList := by
  have hversion : ∀ c ∈ version.toList.map replace, c ≠ '/' ∧ c ≠ '\\' :=
    List.forall_mem_map.mpr fun c _ => replace_ne c
  simp only [toList_fileName, List.mem_append, not_or]
  constructor
  · exact ⟨⟨by decide, fun h => (hversion _ h).1 rfl⟩, by decide⟩
  · exact ⟨⟨by decide, fun h => (hversion _ h).2 rfl⟩, by decide⟩

theorem fileName_ne {name : String} (hhead : name.toList.head? ≠ some 'k') (version : String) :
    fileName version ≠ name := by
  intro h
  apply hhead
  rw [← h, head?_fileName]

theorem fileName_eq_iff :
    fileName v = fileName w ↔ v.toList.map replace = w.toList.map replace := by
  rw [← String.toList_inj, toList_fileName, toList_fileName, List.append_left_inj,
    List.append_right_inj]

/-- The directory with a slash at its end, unless it is empty. -/
def base (dir : String) : String :=
  if dir.isEmpty ∨ dir.toList.getLast? = some '/' then dir else dir ++ "/"

theorem path_eq (dir version : String) : path dir version = base dir ++ fileName version := by
  have hrelative : ¬ (fileName version).toList.head? = some '/' := by
    rw [head?_fileName]
    decide
  rw [path, join, if_neg hrelative, base]
  split <;> rfl

theorem path_eq_iff : path dir v = path dir w ↔ v.toList.map replace = w.toList.map replace := by
  rw [path_eq, path_eq, String.append_right_inj, fileName_eq_iff]

theorem path_empty (version : String) : path "" version = fileName version := by
  have hbase : base "" = "" := by decide
  rw [path_eq, hbase, String.empty_append]

theorem names_fileName (version : String) :
    FileTree.names (fileName version) = [fileName version] :=
  FileTree.names_plain (not_mem_fileName version).1 (fileName_ne (by decide) version)

theorem names_path (dir version : String) :
    FileTree.names (path dir version) = FileTree.names dir ++ [fileName version] := by
  have hfile := names_fileName version
  by_cases hdir : dir = ""
  · have hempty : FileTree.names "" = [] := by decide
    rw [hdir, path_empty, hfile, hempty, List.nil_append]
  · rw [path_eq, base]
    by_cases hslash : dir.toList.getLast? = some '/'
    · -- the slash that ends the directory is the one between
      obtain ⟨front, hfront⟩ := List.getLast?_eq_some_iff.mp hslash
      have hends : dir = String.ofList front ++ "/" := by
        rw [← String.toList_inj, hfront, String.toList_append, String.toList_ofList]
        rfl
      rw [if_pos (.inr hslash), hends, FileTree.names_append, FileTree.names_slash, hfile]
    · have hplain : ¬ (dir.isEmpty ∨ dir.toList.getLast? = some '/') := by
        rw [String.isEmpty_iff]
        exact not_or.mpr ⟨hdir, hslash⟩
      rw [if_neg hplain, FileTree.names_append, hfile]

theorem start_path (dir version : String) : Path.start (path dir version) = Path.start dir := by
  have hfile : fileName version ≠ "." := fileName_ne (by decide) version
  cases hdir : dir.toList with
  | nil =>
    obtain rfl : dir = "" := String.toList_eq_nil_iff.mp hdir
    have hempty : Path.start "" = [] := by decide
    have hslash : ¬ some 'k' = some '/' := by decide
    have hdot : ¬ [fileName version].head? = some "." := fun h => hfile (Option.some.inj h)
    rw [path_empty, hempty, Path.start, head?_fileName, names_fileName, if_neg hslash, if_neg hdot]
  | cons c rest =>
    have hhead : dir.toList.head? = some c := by rw [hdir]; rfl
    have hpath : (path dir version).toList.head? = some c := by
      have hbase : (base dir).toList.head? = some c := by
        rw [base]
        split
        · exact hhead
        · rw [String.toList_append, hdir]
          rfl
      rw [path_eq, String.toList_append, List.head?_append, hbase, Option.some_or]
    rw [Path.start, Path.start, hpath, hhead]
    by_cases hroot : c = '/'
    · rw [if_pos (congrArg some hroot), if_pos (congrArg some hroot)]
    · have hsome := FileTree.names_ne_nil hhead hroot
      rw [names_path, List.head?_append_of_ne_nil _ hsome]

theorem parts_path (dir version : String) :
    Path.parts (path dir version) = Path.parts dir ++ [.name (fileName version)] := by
  have hpart : Path.part? (fileName version) = some (.name (fileName version)) :=
    Path.part?_plain (fileName_ne (by decide) version) (fileName_ne (by decide) version)
  rw [Path.parts, Path.parts, start_path, names_path, List.filterMap_append, List.filterMap_cons,
    hpart, List.filterMap_nil, List.append_assoc]

/-- A path that is one file of a directory: the directory joined with a name that stands for no
directory and has no separator. The directory is what the path is in. -/
structure FileOf (dir path name : String) : Prop where
  joined : path = join dir name
  plain : '/' ∉ name.toList ∧ '\\' ∉ name.toList
  ordinary : name ≠ "." ∧ name ≠ ".."
  last : Path.parts path = Path.parts dir ++ [.name name]
  parent : Path.parent? path = some (Path.parts dir)

theorem fileOf_path (dir version : String) : FileOf dir (path dir version) (fileName version) where
  joined := rfl
  plain := not_mem_fileName version
  ordinary := ⟨fileName_ne (by decide) version, fileName_ne (by decide) version⟩
  last := parts_path dir version
  parent := Path.parent?_of_concat (parts_path dir version)

theorem parts_path_eq_iff :
    Path.parts (path dir v) = Path.parts (path dir w) ↔
      v.toList.map replace = w.toList.map replace := by
  rw [parts_path, parts_path, List.append_right_inj, List.singleton_inj, Path.Part.name.injEq,
    fileName_eq_iff]

/-- A stamp is one file of the stamp directory, for every version. Two versions have one stamp, by
the text of the path and by its parts, exactly when they are the same once `_` stands for each of
the two separators. -/
theorem path_contained (dir : String) :
    (∀ version, ∃ name, FileOf dir (path dir version) name) ∧
    ∀ v w : String,
      (path dir v = path dir w ↔
        v.toList.map (fun c => if c = '/' ∨ c = '\\' then '_' else c) =
          w.toList.map (fun c => if c = '/' ∨ c = '\\' then '_' else c)) ∧
      (Path.parts (path dir v) = Path.parts (path dir w) ↔
        v.toList.map (fun c => if c = '/' ∨ c = '\\' then '_' else c) =
          w.toList.map (fun c => if c = '/' ∨ c = '\\' then '_' else c)) := by
  constructor
  · intro version
    exact ⟨fileName version, fileOf_path dir version⟩
  · intro v w
    exact ⟨path_eq_iff, parts_path_eq_iff⟩

end Stamp

namespace FileTree

variable {α β : Type} {p : FileStep α} {f : α → FileStep β} {R : α → Prop} {Q : β → Prop}
  {tree : FileTree} {dir : String}

/-- What a step gives on a tree, and the tree after it. -/
def runOn (p : FileStep α) (tree : FileTree) : Except IoCause α × FileTree := p.run.run tree

theorem runOn_bind {answer : Except IoCause α} {t : FileTree} (h : runOn p tree = (answer, t)) :
    runOn (p >>= f) tree = match answer with
      | .ok a => runOn (f a) t
      | .error cause => (.error cause, t) := by
  have hrun : (ExceptT.run p).run tree = (answer, t) := h
  show (ExceptT.run (p >>= f)).run tree = _
  rw [ExceptT.run_bind, StateT.run_bind, hrun]
  cases answer <;> rfl

theorem runOn_get (f : FileTree → FileStep β) : runOn (get >>= f) tree = runOn (f tree) tree :=
  runOn_bind rfl

/-- A step that fails or gives something in `R`, and leaves the tree as it is. -/
def Looks (R : α → Prop) (p : FileStep α) (tree : FileTree) : Prop :=
  (∃ a, runOn p tree = (.ok a, tree) ∧ R a) ∨ ∃ cause, runOn p tree = (.error cause, tree)

theorem Looks.bind (hp : Looks R p tree) (hf : ∀ a, R a → Looks Q (f a) tree) :
    Looks Q (p >>= f) tree := by
  rcases hp with ⟨a, ha, hR⟩ | ⟨cause, hcause⟩
  · rw [Looks, runOn_bind ha]
    exact hf a hR
  · exact .inr ⟨cause, runOn_bind hcause⟩

theorem looks_checkPath (path : String) : Looks (fun _ => True) (checkPath path) tree := by
  unfold checkPath
  split_ifs
  · exact .inr ⟨_, rfl⟩
  · exact .inr ⟨_, rfl⟩
  · exact .inr ⟨_, rfl⟩
  · exact .inl ⟨_, rfl, trivial⟩

theorem looks_step (place : List String) (name : String) :
    Looks (fun next => name ≠ "." → name ≠ ".." → next = place ++ [name])
      (step place name) tree := by
  unfold step
  -- the length is looked at before the name in each case
  by_cases hdot : name = "."
  · rw [if_pos hdot]
    split_ifs
    · exact .inr ⟨_, rfl⟩
    · exact .inl ⟨_, rfl, fun h => absurd hdot h⟩
  · by_cases hdots : name = ".."
    · rw [if_neg hdot, if_pos hdots]
      split_ifs
      · exact .inr ⟨_, rfl⟩
      · exact .inl ⟨_, rfl, fun _ h => absurd hdots h⟩
    · rw [if_neg hdot, if_neg hdots]
      split_ifs
      · exact .inr ⟨_, rfl⟩
      · exact .inl ⟨_, rfl, fun _ _ => rfl⟩

/-- Names are followed from directory to directory. -/
theorem looks_follow {place : List String} (hplace : tree.entryAt? place = some .directory)
    (names : List String) :
    Looks (fun home => tree.entryAt? home = some .directory) (follow place names) tree := by
  induction names generalizing place with
  | nil => exact .inl ⟨place, rfl, hplace⟩
  | cons name rest ih =>
    rw [follow]
    refine (looks_step place name).bind fun next _ => ?_
    rw [Looks, runOn_get]
    cases hentry : tree.entryAt? next with
    | none => exact .inr ⟨_, rfl⟩
    | some entry =>
      cases entry with
      | directory => exact ih hentry
      | file => exact .inr ⟨_, rfl⟩

/-- The path of a directory leads to this place. -/
def Leads (tree : FileTree) (dir : String) (home : List String) : Prop :=
  runOn (follow [] (names dir)) tree = (.ok home, tree) ∧ tree.entryAt? home = some .directory

theorem looks_target (dir version : String) :
    Looks (fun place => Leads tree dir place.1 ∧ place.2 = Stamp.fileName version)
      (target (Stamp.path dir version)) tree := by
  rw [target]
  refine (looks_checkPath _).bind fun _ _ => ?_
  have hroot : tree.entryAt? [] = some .directory := rfl
  rw [Stamp.names_path, List.dropLast_concat, List.getLastD_concat]
  rcases looks_follow hroot (names dir) with ⟨home, hhome, hdirectory⟩ | ⟨cause, hcause⟩
  · rw [Looks, runOn_bind hhome]
    exact .inl ⟨_, rfl, ⟨hhome, hdirectory⟩, rfl⟩
  · rw [Looks, runOn_bind hcause]
    exact .inr ⟨cause, rfl⟩

theorem entryAt?_insert (tree : FileTree) {place : List String} (hplace : place ≠ [])
    (entry : FileEntry) (other : List String) :
    (tree.insert place entry).entryAt? other =
      if other = place then some entry else tree.entryAt? other := by
  have hlookup : (tree.insert place entry).entries.lookup other =
      if other = place then some entry
      else if other = place then none else tree.entries.lookup other := by
    show ((place, entry) :: tree.entries.filter (·.1 != place)).lookup other = _
    rw [lookup_cons_entry, lookup_filter_ne]
  by_cases hother : other = place
  · have hsome : ¬ other.isEmpty = true := by simpa [hother] using hplace
    rw [entryAt?, if_neg hsome, hlookup, if_pos hother, if_pos hother]
  · rw [entryAt?, entryAt?, hlookup, if_neg hother, if_neg hother, if_neg hother]

/-- The writing of a stamp fails and changes nothing, or it changes one file: the one with the name
of the stamp, in the directory that the path of the stamp directory leads to. -/
theorem write_stamp (tree : FileTree) (dir version text : String) :
    (∃ cause, runOn (write (Stamp.path dir version) text) tree = (.error cause, tree)) ∨
      ∃ home mode user group after, Leads tree dir home ∧
        runOn (write (Stamp.path dir version) text) tree = (.ok (), after) ∧
        ∀ place, after.entryAt? place =
          if place = home ++ [Stamp.fileName version] then some (.file mode user group text)
          else tree.entryAt? place := by
  rw [write]
  rcases looks_target dir version with ⟨⟨home, name⟩, htarget, hhome, hname⟩ | ⟨cause, hcause⟩
  · obtain rfl : name = Stamp.fileName version := hname
    rw [runOn_bind htarget]
    dsimp only
    rcases looks_step home (Stamp.fileName version) with ⟨place, hstep, hplace⟩ | ⟨cause, hcause⟩
    · obtain rfl := hplace (Stamp.fileName_ne (by decide) version)
        (Stamp.fileName_ne (by decide) version)
      rw [runOn_bind hstep]
      dsimp only
      rw [runOn_get]
      have hne : home ++ [Stamp.fileName version] ≠ [] := List.concat_ne_nil _ _
      cases hentry : tree.entryAt? (home ++ [Stamp.fileName version]) with
      | none =>
        right
        exact ⟨home, 0o644, 0, 0, _, hhome, rfl, entryAt?_insert tree hne _⟩
      | some entry =>
        cases entry with
        | directory => exact .inl ⟨_, rfl⟩
        | file mode user group old =>
          right
          exact ⟨home, mode, user, group, _, hhome, rfl, entryAt?_insert tree hne _⟩
    · exact .inl ⟨cause, runOn_bind hcause⟩
  · exact .inl ⟨cause, runOn_bind hcause⟩

end FileTree

end NodeRollout
