import Mathlib.Data.Fintype.EquivFin
import Mathlib.Data.List.Pairwise
import NodeRollout.Cluster
import NodeRollout.Proofs.Course
import NodeRollout.Proofs.LabelMap
import NodeRollout.Store

/-! The nodes of a cluster through time. A history only grows; each record that was stored has a
resource version of its own, so a version that a reader saw stands for the very record it saw.
`History.Serves` is what is asked of a node store: a list is an atomic snapshot, a read shows the
stored record, and a write conditioned on an old version is not carried out. Apart from that any
call may fail, and a write that fails may still have been carried out. -/
namespace NodeRollout

/-- The node with its labels changed, at another version. -/
def Node.relabel (node : Node) (changes : LabelChanges) (version : Option String) : Node :=
  { node with labels := node.labels.apply changes, resourceVersion := version }

@[simp] theorem Node.relabel_name (node : Node) (changes : LabelChanges) (version : Option String) :
    (node.relabel changes version).name = node.name := rfl

/-- One change of the stored nodes. -/
inductive Change where
  | stored (node : Node)
  | removed (name : String)
  deriving DecidableEq

namespace Change

def name : Change → String
  | .stored node => node.name
  | .removed name => name

def node? : Change → Option Node
  | .stored node => some node
  | .removed _ => none

end Change

/-- All changes of the nodes, the newest first. Every record has a resource version, and no node
gets a version twice. -/
structure History where
  changes : List Change
  versioned : ∀ node ∈ changes.filterMap Change.node?, node.resourceVersion.isSome
  fresh : (changes.filterMap Change.node?).Pairwise fun a b =>
    a.name = b.name → a.resourceVersion ≠ b.resourceVersion

namespace History

def records (h : History) : List Node := h.changes.filterMap Change.node?

/-- The record that is stored under a name now. -/
def find? (h : History) (name : String) : Option Node :=
  (h.changes.find? (·.name == name)).bind Change.node?

theorem mem_records {h : History} {name : String} {node : Node} (hn : h.find? name = some node) :
    node ∈ h.records := by
  obtain ⟨change, hc, hnode⟩ := Option.bind_eq_some_iff.mp hn
  exact List.mem_filterMap.mpr ⟨change, List.mem_of_find?_eq_some hc, hnode⟩

theorem name_of_find? {h : History} {name : String} {node : Node}
    (hn : h.find? name = some node) : node.name = name := by
  obtain ⟨change, hc, hnode⟩ := Option.bind_eq_some_iff.mp hn
  have hname := List.find?_some hc
  cases change with
  | stored n =>
    cases hnode
    simpa [Change.name] using hname
  | removed m => cases hnode

theorem find?_name {h : History} {name : String} {node : Node} (hn : h.find? name = some node) :
    h.find? node.name = some node := (name_of_find? hn).symm ▸ hn

/-- Two records of one node with one resource version are the same record. -/
theorem eq_of_version {h : History} {a b : Node} (ha : a ∈ h.records) (hb : b ∈ h.records)
    (hname : a.name = b.name) (hversion : a.resourceVersion = b.resourceVersion) : a = b := by
  by_contra hne
  -- `fresh` compares later records with earlier ones; which of the two is later does not matter
  have : Std.Symm fun a b : Node => a.name = b.name → a.resourceVersion ≠ b.resourceVersion :=
    ⟨fun _ _ hr hn hv => hr hn.symm hv.symm⟩
  exact h.fresh.forall ha hb hne hname hversion

theorem version_isSome {h : History} {node : Node} (hn : node ∈ h.records) :
    node.resourceVersion.isSome := h.versioned node hn

def Extends (h h' : History) : Prop := h.changes <:+ h'.changes

theorem Extends.refl (h : History) : h.Extends h := List.suffix_refl _

theorem Extends.trans {h h' h'' : History} (a : h.Extends h') (b : h'.Extends h'') :
    h.Extends h'' := List.IsSuffix.trans a b

theorem Extends.mem {h h' : History} (he : h.Extends h') {node : Node} (hn : node ∈ h.records) :
    node ∈ h'.records := (List.Sublist.filterMap Change.node? he.sublist).subset hn

def Adds (h : History) (change : Change) (h' : History) : Prop := h'.changes = change :: h.changes

theorem Adds.extends {h h' : History} {change : Change} (ha : h.Adds change h') : h.Extends h' :=
  ⟨[change], ha.symm⟩

theorem Adds.find?_stored {h h' : History} {node : Node} (ha : h.Adds (.stored node) h')
    (name : String) : h'.find? name = if name = node.name then some node else h.find? name := by
  simp only [find?, show h'.changes = .stored node :: h.changes from ha, List.find?_cons]
  by_cases hname : name = node.name
  · simp [Change.name, Change.node?, hname]
  · have hb : (node.name == name) = false := beq_false_of_ne fun h => hname h.symm
    simp [Change.name, hb, hname]

/-- The history with one record more, at a version that its node never had. -/
def store (h : History) (node : Node) (hversion : node.resourceVersion.isSome)
    (hfresh : ∀ old ∈ h.records, node.name = old.name →
      node.resourceVersion ≠ old.resourceVersion) : History where
  changes := .stored node :: h.changes
  versioned := List.forall_mem_cons.mpr ⟨hversion, h.versioned⟩
  fresh := List.pairwise_cons.mpr ⟨hfresh, h.fresh⟩

/-- All nodes, each once. -/
def IsSnapshot (h : History) (nodes : List Node) : Prop :=
  (nodes.map Node.name).Nodup ∧ ∀ node, node ∈ nodes ↔ h.find? node.name = some node

theorem isSnapshot_of_records {h : History} {nodes : List Node}
    (hnames : (nodes.map Node.name).Nodup)
    (hstored : ∀ node ∈ nodes, h.find? node.name = some node)
    (hall : ∀ node ∈ h.records, h.find? node.name = some node → node ∈ nodes) :
    h.IsSnapshot nodes := by
  refine ⟨hnames, ?_⟩
  intro node
  exact ⟨hstored node, fun hnode => hall node (mem_records hnode) hnode⟩

/-- The node that was read as `seen` gets these changes of its labels and nothing else; a change
that changes nothing may leave the version as it is. -/
def Writes (h : History) (seen : Node) (changes : LabelChanges) (h' : History) : Prop :=
  ∃ old version, h.find? seen.name = some old ∧ Store.isCurrent old seen = true ∧
    (h.Adds (.stored (old.relabel changes version)) h' ∨
      old.relabel changes version = old ∧ h' = h)

/-- How a node store may answer a call, and what the call leaves. -/
def Serves (h : History) : (c : ClusterCall) → c.Answer → History → Prop
  | .list, answer, h' => h' = h ∧ ∀ nodes, answer = Except.ok nodes → h.IsSnapshot nodes
  | .get name, answer, h' => h' = h ∧ ∀ node, answer = Except.ok node → h.find? name = some node
  | .patch seen changes, answer, h' =>
    h.Writes seen changes h' ∨ h' = h ∧ answer ≠ Except.ok ()
  | .readUntil name _ _, answer, h' =>
    h' = h ∧ ∀ t node, answer = some (t, Except.ok node) → h.find? name = some node
  | _, _, h' => h' = h

theorem Serves.eq {h h' : History} {c : ClusterCall} {answer : c.Answer}
    (hs : h.Serves c answer h') (hc : ∀ seen changes, c ≠ .patch seen changes) : h' = h := by
  cases c with
  | patch seen changes => exact absurd rfl (hc seen changes)
  | list => exact hs.1
  | get => exact hs.1
  | readUntil => exact hs.1
  | upgrades => exact hs
  | push => exact hs
  | now => exact hs
  | sleepUntil => exact hs
  | count => exact hs

/-- A write planned for a record that was once stored is carried out on that very record. -/
theorem Writes.find?_seen {h h' : History} {seen : Node} {changes : LabelChanges}
    (hw : h.Writes seen changes h') (hseen : seen ∈ h.records) :
    h.find? seen.name = some seen := by
  obtain ⟨old, -, hold, hcurrent, -⟩ := hw
  obtain ⟨version, hversion⟩ := Option.isSome_iff_exists.mp (version_isSome hseen)
  have hsame : seen.resourceVersion = old.resourceVersion := by
    simpa [Store.isCurrent, hversion] using hcurrent
  have heq : seen = old :=
    eq_of_version hseen (mem_records hold) (name_of_find? hold).symm hsame
  rw [hold, heq]

/-- What is stored after a write: the named node with its labels changed, every other one as
before. -/
theorem Writes.find? {h h' : History} {seen : Node} {changes : LabelChanges}
    (hw : h.Writes seen changes h') :
    ∃ old version, h.find? seen.name = some old ∧
      ∀ name, h'.find? name =
        if name = seen.name then some (old.relabel changes version) else h.find? name := by
  obtain ⟨old, version, hold, -, hadds⟩ := hw
  have hname : old.name = seen.name := name_of_find? hold
  refine ⟨old, version, hold, ?_⟩
  intro name
  rcases hadds with ha | ⟨hsame, rfl⟩
  · rw [ha.find?_stored, Node.relabel_name, hname]
  · by_cases hn : name = seen.name
    · rw [if_pos hn, hsame, hn, hold]
    · rw [if_neg hn]

theorem exists_fresh_version (h : History) :
    ∃ version : String, ∀ node ∈ h.records, node.resourceVersion ≠ some version := by
  obtain ⟨version, hfresh⟩ :=
    Infinite.exists_notMem_finset (h.records.map fun node => node.resourceVersion.getD "").toFinset
  refine ⟨version, ?_⟩
  intro node hnode heq
  apply hfresh
  rw [List.mem_toFinset, List.mem_map]
  exact ⟨node, hnode, by rw [heq, Option.getD_some]⟩

/-- A write on the record that is stored can be carried out. -/
theorem exists_writes {h : History} {node : Node} (changes : LabelChanges)
    (hnode : h.find? node.name = some node) : ∃ h', h.Writes node changes h' := by
  obtain ⟨version, hfresh⟩ := h.exists_fresh_version
  have hnew : ∀ old ∈ h.records, (node.relabel changes (some version)).name = old.name →
      (node.relabel changes (some version)).resourceVersion ≠ old.resourceVersion := by
    intro old hold _ heq
    exact hfresh old hold heq.symm
  have hcurrent : Store.isCurrent node node = true := by simp [Store.isCurrent]
  exact ⟨h.store (node.relabel changes (some version)) rfl hnew, node, some version, hnode,
    hcurrent, .inl rfl⟩

end History

end NodeRollout
