import NodeRollout.Api.Server
import NodeRollout.Proofs.History
import NodeRollout.Proofs.MergePatch

/-! The patch that changes labels, merged into a node object. It touches the labels and the version
of the object and nothing else, and what is read from the object afterwards is the node with its
labels changed. So it is for every object that a node is read from, however many of its parts are
null or missing. -/
namespace NodeRollout

open Json Api

namespace Node

variable {object value : Value} {members changes : List (String × Value)} {name key next : String}
  {path : List String}

/-- The metadata of an object, null when there is none. -/
def metadata (object : Value) : Value := (object.get? "metadata").getD .null

/-- The patch that makes these changes to the metadata. -/
def metadataPatch (changes : List (String × Value)) : Value :=
  .object [("metadata", .object changes)]

theorem member?_singleton : member? value [name] = value.get? name :=
  Option.bind_fun_some _

theorem member?_cons : member? value (name :: next :: path) =
    member? ((value.get? name).getD .null) (next :: path) := by
  rw [member?]
  cases value.get? name <;> rfl

theorem member?_metadata : member? object ("metadata" :: next :: path) =
    member? (metadata object) (next :: path) := member?_cons

theorem get?_metadataPatch : (object.mergePatch (metadataPatch changes)).get? key =
    if key = "metadata" then some ((metadata object).mergePatch (.object changes))
    else object.get? key := by
  have hnodup : ([("metadata", Value.object changes)].map (·.1)).Nodup := List.nodup_singleton _
  rw [metadataPatch, get?_mergePatch hnodup, lookup_cons_entry]
  by_cases hkey : key = "metadata"
  · simp only [hkey, if_true]
    rfl
  · simp only [hkey, if_false, List.lookup_nil]

theorem metadata_metadataPatch : metadata (object.mergePatch (metadataPatch changes)) =
    (metadata object).mergePatch (.object changes) := by
  rw [metadata, get?_metadataPatch, if_pos rfl, Option.getD_some]

theorem member?_metadataPatch (hname : name ≠ "metadata") :
    member? (object.mergePatch (metadataPatch changes)) (name :: path) =
      member? object (name :: path) := by
  rw [member?, member?, get?_metadataPatch, if_neg hname]

/-- The version that a member of the metadata gives. -/
def versionOf : Option Value → Option String
  | some (.string version) => some version
  | _ => none

theorem ofObject_metadataPatch (hnodup : (changes.map (·.1)).Nodup)
    (hname : changes.lookup "name" = none) :
    ofObject (object.mergePatch (metadataPatch changes)) = { ofObject object with
      labels := labelsOf (((metadata object).mergePatch (.object changes)).get? "labels")
      resourceVersion :=
        versionOf (((metadata object).mergePatch (.object changes)).get? "resourceVersion") } := by
  have hmember : ∀ x, member? (object.mergePatch (metadataPatch changes)) ["metadata", x] =
      ((metadata object).mergePatch (.object changes)).get? x := by
    intro x
    rw [member?_metadata, metadata_metadataPatch, member?_singleton]
  have hkept : ((metadata object).mergePatch (.object changes)).get? "name" =
      member? object ["metadata", "name"] := by
    rw [get?_mergePatch hnodup, hname, member?_metadata, member?_singleton]
  have hstatus : ∀ rest, member? (object.mergePatch (metadataPatch changes)) ("status" :: rest) =
      member? object ("status" :: rest) := fun _ => member?_metadataPatch (by decide)
  have hspec : ∀ rest, member? (object.mergePatch (metadataPatch changes)) ("spec" :: rest) =
      member? object ("spec" :: rest) := fun _ => member?_metadataPatch (by decide)
  simp only [ofObject, textAt, hmember, hkept, hstatus, hspec]
  rfl

/-- The labels among the members of a label object: those whose value is a text. -/
def labelEntries (members : List (String × Value)) : List (String × String) :=
  members.filterMap fun
    | (name, .string value) => some (name, value)
    | _ => none

theorem labelsOf_eq (value : Option Value) :
    labelsOf value = .ofList (labelEntries (value.getD .null).members) := by
  match value with
  | some (.object members) => rfl
  | none | some .null | some (.bool _) | some (.number _) | some (.string _) | some (.array _)
  | some .unreadable => rfl

theorem labelEntries_cons (member : String × Value) (rest : List (String × Value)) :
    labelEntries (member :: rest) = match member with
      | (name, .string value) => (name, value) :: labelEntries rest
      | _ => labelEntries rest := by
  obtain ⟨name, value⟩ := member
  cases value <;> rfl

theorem lookup_labelEntries_replace (name key value : String) (members : List (String × Value)) :
    (labelEntries (members.map fun m => if m.1 = name then (name, .string value) else m)).lookup key =
      if key = name then (members.lookup name).map fun _ => value
      else (labelEntries members).lookup key := by
  induction members with
  | nil => simp [labelEntries]
  | cons m rest ih =>
    obtain ⟨other, old⟩ := m
    rw [List.map_cons]
    by_cases hother : other = name
    · subst hother
      rw [if_pos rfl, labelEntries_cons, lookup_cons_entry, ih, labelEntries_cons]
      by_cases hkey : key = other
      · simp [hkey]
      · cases old <;> simp [hkey, lookup_cons_entry]
    · rw [if_neg hother, labelEntries_cons, labelEntries_cons]
      by_cases hkey : key = name
      · subst hkey
        have hne : key ≠ other := Ne.symm hother
        cases old <;> simp [ih, lookup_cons_entry, hne]
      · cases old <;> simp [ih, lookup_cons_entry, hkey]

/-- The labels that the members of a label object give. -/
def labelsIn (members : List (String × Value)) : Labels := .ofList (labelEntries members)

theorem get?_labelsIn : (labelsIn members).get? key = (labelEntries members.reverse).lookup key := by
  rw [labelsIn, LabelMap.get?_ofList, labelEntries, labelEntries, List.filterMap_reverse]

theorem labelsIn_setMember (value : String) :
    labelsIn (setMember name (.string value) members) = (labelsIn members).insert name value := by
  refine LabelMap.ext_get? fun key => ?_
  rw [LabelMap.get?_insert, get?_labelsIn, get?_labelsIn, setMember]
  split
  next hany =>
    obtain ⟨member, hmember, hname⟩ := List.any_eq_true.mp hany
    obtain ⟨old, hold⟩ := exists_lookup (List.mem_reverse.mpr hmember)
    rw [beq_iff_eq.mp hname] at hold
    rw [← List.map_reverse, lookup_labelEntries_replace, hold, Option.map_some]
  next =>
    rw [List.reverse_append, List.reverse_singleton, List.singleton_append, labelEntries_cons]
    exact lookup_cons_entry key (name, value) _

theorem labelEntries_filter (name : String) (members : List (String × Value)) :
    labelEntries (members.filter (·.1 != name)) = (labelEntries members).filter (·.1 != name) := by
  induction members with
  | nil => rfl
  | cons m rest ih =>
    obtain ⟨other, value⟩ := m
    rw [List.filter_cons, labelEntries_cons]
    by_cases hother : other = name
    · cases value <;> simp [hother, ih]
    · cases value <;> simp [hother, ih, labelEntries_cons]

theorem labelsIn_removeMember :
    labelsIn (removeMember name members) = (labelsIn members).erase name := by
  refine LabelMap.ext_get? fun key => ?_
  rw [LabelMap.get?_erase, get?_labelsIn, get?_labelsIn, removeMember, ← List.filter_reverse,
    labelEntries_filter, lookup_filter_ne]

theorem mergePatch_string (target : Value) (text : String) :
    target.mergePatch (.string text) = .string text := rfl

/-- The changes of the labels as members of a patch. -/
def labelMembers (changes : LabelChanges) : List (String × Value) :=
  changes.entries.map fun (name, value) => (name, labelValue value)

theorem labelsIn_mergeMembers (labels : List (String × Value)) (changes : LabelChanges) :
    labelsIn (mergeMembers labels (labelMembers changes)) = (labelsIn labels).apply changes := by
  obtain ⟨entries, hasc⟩ := changes
  simp only [labelMembers, Labels.apply]
  -- both sides go through the changes from the left, and each step is the same for any names
  clear hasc
  induction entries generalizing labels with
  | nil => rfl
  | cons e rest ih =>
    obtain ⟨name, value⟩ := e
    rw [List.map_cons, List.foldl_cons]
    cases value with
    | none =>
      rw [labelValue, mergeMembers_null, ih, labelsIn_removeMember]
      rfl
    | some value =>
      rw [labelValue, mergeMembers_cons (by simp), mergePatch_string, ih, labelsIn_setMember]
      rfl

/-- The members of the metadata that a patch carries. -/
def patchMembers (seen : Node) (changes : LabelChanges) : List (String × Value) :=
  ("labels", .object (labelMembers changes)) :: versionMember seen.resourceVersion

theorem nodup_patchMembers (seen : Node) (changes : LabelChanges) :
    ((patchMembers seen changes).map (·.1)).Nodup := by
  cases hversion : seen.resourceVersion <;> simp [patchMembers, versionMember, hversion]

theorem lookup_labels_patchMembers (seen : Node) (changes : LabelChanges) :
    (patchMembers seen changes).lookup "labels" = some (.object (labelMembers changes)) :=
  List.lookup_cons_self

theorem lookup_version_patchMembers (seen : Node) (changes : LabelChanges) :
    (patchMembers seen changes).lookup "resourceVersion" =
      seen.resourceVersion.map .string := by
  have hne : "resourceVersion" ≠ "labels" := by decide
  rw [patchMembers, lookup_cons_entry, if_neg hne]
  cases seen.resourceVersion with
  | none => rfl
  | some version => exact List.lookup_cons_self

theorem lookup_patchMembers_of_ne (seen : Node) (changes : LabelChanges)
    (hlabels : key ≠ "labels") (hversion : key ≠ "resourceVersion") :
    (patchMembers seen changes).lookup key = none := by
  rw [patchMembers, lookup_cons_entry, if_neg hlabels]
  cases seen.resourceVersion with
  | none => rfl
  | some version =>
    rw [versionMember, lookup_cons_entry, if_neg hversion]
    rfl

theorem labels_ofObject (object : Value) :
    (ofObject object).labels = labelsOf ((metadata object).get? "labels") := by
  rw [← member?_singleton, ← member?_metadata]
  rfl

theorem version_ofObject (object : Value) :
    (ofObject object).resourceVersion = versionOf ((metadata object).get? "resourceVersion") := by
  rw [← member?_singleton, ← member?_metadata]
  rfl

/-- What is read from a node object after the patch is the node with its labels changed, at the
version of the patch if it carries one. -/
theorem ofObject_labelPatch (object : Value) (seen : Node) (changes : LabelChanges) :
    ofObject (object.mergePatch (seen.labelPatch changes)) =
      (ofObject object).relabel changes
        (seen.resourceVersion.or (ofObject object).resourceVersion) := by
  have hnodup := nodup_patchMembers seen changes
  have hpatch : seen.labelPatch changes = metadataPatch (patchMembers seen changes) := rfl
  have hname := lookup_patchMembers_of_ne seen changes (show "name" ≠ "labels" by decide)
    (show "name" ≠ "resourceVersion" by decide)
  have hlabels : labelsOf (((metadata object).mergePatch
      (.object (patchMembers seen changes))).get? "labels") =
        (ofObject object).labels.apply changes := by
    rw [get?_mergePatch hnodup, lookup_labels_patchMembers, labels_ofObject, labelsOf_eq,
      labelsOf_eq]
    exact labelsIn_mergeMembers _ changes
  have hversion : versionOf (((metadata object).mergePatch
      (.object (patchMembers seen changes))).get? "resourceVersion") =
        seen.resourceVersion.or (ofObject object).resourceVersion := by
    rw [get?_mergePatch hnodup, lookup_version_patchMembers, version_ofObject]
    cases seen.resourceVersion <;> rfl
  rw [hpatch, ofObject_metadataPatch hnodup hname, hlabels, hversion]
  rfl

/-- Where the patch changes an object. -/
def labelsPath : List String := ["metadata", "labels"]

def versionPath : List String := ["metadata", "resourceVersion"]

theorem lookup_labelMembers (changes : LabelChanges) (key : String) :
    (labelMembers changes).lookup key = (changes.get? key).map labelValue :=
  LabelMap.get?_map labelValue changes key

theorem nodup_labelMembers (changes : LabelChanges) :
    ((labelMembers changes).map (·.1)).Nodup := (changes.map labelValue).nodup_names

theorem member?_labelPatch (object : Value) (seen : Node) (changes : LabelChanges) :
    member? (object.mergePatch (seen.labelPatch changes)) ("metadata" :: next :: path) =
      (match (patchMembers seen changes).lookup next with
        | some change => Value.changed ((metadata object).get? next) change
        | none => (metadata object).get? next).bind (member? · path) := by
  have hpatch : seen.labelPatch changes = metadataPatch (patchMembers seen changes) := rfl
  rw [member?_metadata, hpatch, metadata_metadataPatch, member?]
  exact congrArg (Option.bind · (member? · path)) (get?_mergePatch (nodup_patchMembers seen changes))

theorem member?_labelPatch_elsewhere (object : Value) (seen : Node) (changes : LabelChanges)
    {path : List String} (hlabels : ¬ path <+: labelsPath) (hlabels' : ¬ labelsPath <+: path)
    (hversion' : ¬ versionPath <+: path) :
    member? (object.mergePatch (seen.labelPatch changes)) path = member? object path := by
  cases path with
  | nil => exact absurd List.nil_prefix hlabels
  | cons name rest =>
    by_cases hname : name = "metadata"
    · subst hname
      cases rest with
      | nil => exact absurd ⟨["labels"], rfl⟩ hlabels
      | cons next rest =>
        have hne : next ≠ "labels" := by
          rintro rfl
          exact hlabels' ⟨rest, rfl⟩
        have hne' : next ≠ "resourceVersion" := by
          rintro rfl
          exact hversion' ⟨rest, rfl⟩
        rw [member?_labelPatch, lookup_patchMembers_of_ne seen changes hne hne', member?_metadata,
          member?]
    · exact member?_metadataPatch hname

theorem member?_labelPatch_label (object : Value) (seen : Node) (changes : LabelChanges)
    (key : String) :
    member? (object.mergePatch (seen.labelPatch changes)) ["metadata", "labels", key] =
      ((changes.get? key).map (·.map .string)).getD
        (member? object ["metadata", "labels", key]) := by
  have hold : member? object ["metadata", "labels", key] =
      (Value.object (((metadata object).get? "labels").getD .null).members).get? key := by
    rw [member?_metadata, member?_cons, member?_singleton]
    rfl
  have hnew : member? (object.mergePatch (seen.labelPatch changes)) ["metadata", "labels", key] =
      (Value.object (mergeMembers (((metadata object).get? "labels").getD .null).members
        (labelMembers changes))).get? key := by
    rw [member?_labelPatch, lookup_labels_patchMembers]
    exact member?_singleton
  rw [hnew, get?_mergeMembers (nodup_labelMembers changes), lookup_labelMembers, hold]
  cases changes.get? key with
  | none => rfl
  | some value => cases value <;> rfl

theorem member?_labelPatch_version (object : Value) (seen : Node) (changes : LabelChanges) :
    member? (object.mergePatch (seen.labelPatch changes)) versionPath =
      (seen.resourceVersion.map .string).or (member? object versionPath) := by
  rw [versionPath, member?_labelPatch, lookup_version_patchMembers, member?_metadata,
    member?_singleton]
  cases seen.resourceVersion with
  | none => exact Option.bind_fun_some _
  | some version => rfl

end Node

namespace Api.Schema

open Node

variable {room : Nat} {value object : Value} {fields : List (String × Schema)} {name : String}
  {members changes : List (String × Value)}

/-- The fields that a shape of fields knows. -/
def known : Schema → List (String × Schema)
  | .fields fields => fields
  | _ => []

theorem accepts_fields : (Schema.fields fields).accepts room (.object members) = true ↔
    0 < room ∧ ∀ m ∈ members, acceptsMember (room - 1) fields m.1 m.2 = true := by
  simp [accepts]

theorem accepts_map_text : (Schema.map .text).accepts room (.object members) = true ↔
    0 < room ∧ ∀ m ∈ members, Schema.text.accepts (room - 1) m.2 = true := by
  simp [accepts]

theorem accepts_optional_object (schema : Schema) :
    (Schema.optional schema).accepts room (.object members) =
      schema.accepts room (.object members) := by
  rw [accepts]
  simp

theorem accepts_optional {schema : Schema} (h : schema.accepts room value = true) :
    (Schema.optional schema).accepts room value = true := by
  cases value with
  | null => simp [accepts]
  | _ => simpa [accepts] using h

/-- The member of a name has the shape of its field, and so has null in the place of a member that
is not there. -/
theorem acceptsMember_get? (fields : List (String × Schema)) (name : String)
    (h : (Schema.optional (.fields fields)).accepts room value = true)
    (hnull : acceptsMember (room - 1) fields name .null = true) :
    acceptsMember (room - 1) fields name ((value.get? name).getD .null) = true := by
  cases hget : value.get? name with
  | none => exact hnull
  | some found =>
    have hmem : (name, found) ∈ value.members := List.mem_reverse.mp (mem_of_lookup hget)
    cases value with
    | object members =>
      rw [accepts_optional_object, accepts_fields] at h
      exact h.2 _ hmem
    | _ => cases hmem

theorem acceptsMember_metadata : acceptsMember room node.known "metadata" value =
    (Schema.optional objectMeta).accepts room value := by
  simp [node, known, acceptsMember]

theorem acceptsMember_labels : acceptsMember room objectMeta.known "labels" value =
    (Schema.optional (.map .text)).accepts room value := by
  simp [objectMeta, nullable, texts, known, acceptsMember]

theorem acceptsMember_version (version : String) :
    acceptsMember room objectMeta.known "resourceVersion" (.string version) = true := by
  simp [objectMeta, nullable, texts, known, acceptsMember, accepts]

theorem accepts_metadata (h : node.accepts room object = true) :
    (Schema.optional objectMeta).accepts (room - 1) (metadata object) = true := by
  have hnull : acceptsMember (room - 1) node.known "metadata" .null = true := by
    rw [acceptsMember_metadata]
    simp [accepts]
  have hmember := acceptsMember_get? node.known "metadata" (accepts_optional h) hnull
  rwa [acceptsMember_metadata] at hmember

theorem members_of_optional (h : (Schema.optional (.fields fields)).accepts room value = true) :
    ∀ m ∈ value.members, acceptsMember (room - 1) fields m.1 m.2 = true := by
  cases value with
  | object members =>
    rw [accepts_optional_object, accepts_fields] at h
    exact h.2
  | _ => exact List.forall_mem_nil _

theorem texts_of_labels (h : (Schema.optional (.map .text)).accepts room value = true) :
    ∀ m ∈ value.members, Schema.text.accepts (room - 1) m.2 = true := by
  cases value with
  | object members =>
    rw [accepts_optional_object, accepts_map_text] at h
    exact h.2
  | _ => exact List.forall_mem_nil _

/-- An object whose metadata is patched is still a node, as long as the fields of the metadata keep
their shapes. -/
theorem accepts_metadataPatch (hroom : 1 < room) (h : node.accepts room object = true)
    (hmembers : ∀ m ∈ mergeMembers (metadata object).members changes,
      acceptsMember (room - 1 - 1) objectMeta.known m.1 m.2 = true) :
    node.accepts room (object.mergePatch (metadataPatch changes)) = true := by
  have hmerged : object.mergePatch (metadataPatch changes) = .object (setMember "metadata"
      ((metadata object).mergePatch (.object changes)) object.members) := rfl
  have hmetadata : acceptsMember (room - 1) node.known "metadata"
      ((metadata object).mergePatch (.object changes)) = true := by
    rw [acceptsMember_metadata]
    refine (accepts_optional_object objectMeta).trans ?_
    exact accepts_fields.mpr ⟨by omega, hmembers⟩
  rw [hmerged]
  refine accepts_fields.mpr ⟨by omega, ?_⟩
  exact forall_mem_setMember hmetadata (members_of_optional (accepts_optional h))

theorem texts_mergeMembers {changes : LabelChanges}
    (h : ∀ m ∈ members, Schema.text.accepts room m.2 = true) :
    ∀ m ∈ mergeMembers members (labelMembers changes), Schema.text.accepts room m.2 = true := by
  obtain ⟨entries, hasc⟩ := changes
  simp only [labelMembers]
  clear hasc
  induction entries generalizing members with
  | nil => exact h
  | cons e rest ih =>
    obtain ⟨name, value⟩ := e
    rw [List.map_cons]
    cases value with
    | none =>
      rw [labelValue, mergeMembers_null]
      exact ih fun m hm => h m (mem_of_mem_removeMember hm)
    | some value =>
      rw [labelValue, mergeMembers_cons (by simp), mergePatch_string]
      exact ih (forall_mem_setMember rfl h)

theorem accepts_labelPatch (hroom : 2 < room) (h : node.accepts room object = true) (seen : Node)
    (changes : LabelChanges) :
    node.accepts room (object.mergePatch (seen.labelPatch changes)) = true := by
  have hmetadata := accepts_metadata h
  have hlabels : (Schema.optional (.map .text)).accepts (room - 1 - 1)
      (((metadata object).get? "labels").getD .null) = true := by
    have hnull : acceptsMember (room - 1 - 1) objectMeta.known "labels" .null = true := by
      rw [acceptsMember_labels]
      simp [accepts]
    have hmember := acceptsMember_get? objectMeta.known "labels" hmetadata hnull
    rwa [acceptsMember_labels] at hmember
  have hmerged : acceptsMember (room - 1 - 1) objectMeta.known "labels"
      ((((metadata object).get? "labels").getD .null).mergePatch
        (.object (labelMembers changes))) = true := by
    rw [acceptsMember_labels]
    refine (accepts_optional_object _).trans ?_
    exact accepts_map_text.mpr ⟨by omega, texts_mergeMembers (texts_of_labels hlabels)⟩
  have hpatch : seen.labelPatch changes = metadataPatch (patchMembers seen changes) := rfl
  rw [hpatch]
  refine accepts_metadataPatch (by omega) h ?_
  -- the labels are set first, then the version if there is one
  rw [patchMembers, mergeMembers_cons (by simp)]
  have hset := forall_mem_setMember hmerged (members_of_optional hmetadata)
  cases seen.resourceVersion with
  | none => exact hset
  | some version =>
    rw [versionMember, mergeMembers_cons (by simp), mergePatch_string]
    exact forall_mem_setMember (acceptsMember_version version) hset

end Api.Schema

namespace Node

variable {object : Value} {node seen : Node} {changes : LabelChanges}

theorem ofObject?_eq_some_iff : ofObject? object = some node ↔
    Schema.node.accepts maxDepth object = true ∧ ofObject object = node := by
  rw [ofObject?]
  split
  next haccepts => simp [haccepts]
  next hrefused => simp [hrefused]

/-- What the patch of a label change makes of an object: its labels are changed as asked, its version
is the one of the patch if there is one, and everything else stays as it was. A node is still read
from it. -/
structure Patches (seen : Node) (changes : LabelChanges) (before after : Value) : Prop where
  elsewhere : ∀ path, ¬ path <+: labelsPath → ¬ labelsPath <+: path → ¬ versionPath <+: path →
    member? after path = member? before path
  labels : ∀ key, member? after ["metadata", "labels", key] =
    ((changes.get? key).map (·.map .string)).getD (member? before ["metadata", "labels", key])
  version : member? after versionPath =
    (seen.resourceVersion.map .string).or (member? before versionPath)
  read : ∀ node, ofObject? before = some node →
    ofObject? after = some (node.relabel changes (seen.resourceVersion.or node.resourceVersion))

theorem patches_labelPatch (seen : Node) (changes : LabelChanges) (object : Value) :
    Patches seen changes object (object.mergePatch (seen.labelPatch changes)) where
  elsewhere path := member?_labelPatch_elsewhere object seen changes
  labels := member?_labelPatch_label object seen changes
  version := member?_labelPatch_version object seen changes
  read node hnode := by
    obtain ⟨haccepts, rfl⟩ := ofObject?_eq_some_iff.mp hnode
    have hroom : 2 < maxDepth := by decide
    exact ofObject?_eq_some_iff.mpr
      ⟨Schema.accepts_labelPatch hroom haccepts seen changes, ofObject_labelPatch object seen changes⟩

/-- A patch carries the very version that its node was read at, and no other. -/
theorem member?_version_labelPatch (seen : Node) (changes : LabelChanges) :
    member? (seen.labelPatch changes) versionPath = seen.resourceVersion.map .string := by
  cases hversion : seen.resourceVersion <;>
    simp [labelPatch, versionPath, versionMember, member?, Value.get?, Value.members, hversion,
      lookup_cons_entry]

end Node

end NodeRollout
