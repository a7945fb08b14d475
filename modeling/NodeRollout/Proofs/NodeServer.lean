import NodeRollout.Proofs.Addresses
import NodeRollout.Proofs.Course
import NodeRollout.Proofs.LabelPatch
import NodeRollout.Proofs.ValueTexts

/-! The API server on the other side of the channel. It keeps node objects, and the nodes that are
read from these make up a store. Whatever it does with a request, its answer means what that store
would say, and it has an answer to every request that the way to it can send. -/
namespace NodeRollout

namespace Store

theorem ofList_nodes (nodes : List Node) :
    (ofList nodes).nodes = .ofList (nodes.map fun node => (node.name, node)) := by
  have hfold : ∀ store : Store, (nodes.foldl put store).nodes =
      (nodes.map fun node => (node.name, node)).foldl (fun m e => m.insert e.1 e.2)
        store.nodes := by
    induction nodes with
    | nil => exact fun _ => rfl
    | cons node rest ih => exact fun store => ih (store.put node)
  exact hfold {}

end Store

namespace Api

open Json

/-- The members of a list object with these items. -/
structure IsNodeList (objects : List Value) (members : List (String × Value)) : Prop where
  items : members.filter (·.1 == "items") = [("items", .array objects)]
  metadata : countOf "metadata" members ≤ 1
  others : ∀ m ∈ members, m.1 ≠ "items" → acceptsInList m.1 m.2 = true

variable {name : String} {objects : List Value} {members : List (String × Value)}

theorem IsNodeList.value_items (h : IsNodeList objects members) {m : String × Value}
    (hm : m ∈ members) (hname : m.1 = "items") : m.2 = .array objects := by
  have hfilter : m ∈ members.filter (·.1 == "items") := List.mem_filter.mpr ⟨hm, by simp [hname]⟩
  rw [h.items, List.mem_singleton] at hfilter
  rw [hfilter]

theorem nodesOf_list (h : IsNodeList objects members)
    (hobjects : ∀ object ∈ objects, Schema.node.accepts (maxDepth - 2) object = true) :
    nodesOf (.object members) = .ok (objects.map Node.ofObject) := by
  have hmem : ("items", Value.array objects) ∈ members := by
    have hfilter : ("items", Value.array objects) ∈ members.filter (·.1 == "items") := by
      rw [h.items]
      exact List.mem_singleton_self _
    exact (List.mem_filter.mp hfilter).1
  have hcount : countOf "items" members = 1 := by
    rw [countOf, List.countP_eq_length_filter, h.items]
    rfl
  have hlookup : members.lookup "items" = some (.array objects) := by
    obtain ⟨found, hfound⟩ := exists_lookup hmem
    rw [hfound]
    exact congrArg some (h.value_items (mem_of_lookup hfound) rfl)
  have hlist : acceptsInList "items" (.array objects) = true := by
    have hroom : maxDepth - 1 - 1 = maxDepth - 2 := rfl
    have hall : objects.all (Schema.node.accepts (maxDepth - 1 - 1)) = true :=
      List.all_eq_true.mpr (hroom ▸ hobjects)
    have hopen : 0 < maxDepth - 1 := by decide
    simp [acceptsInList, Schema.accepts, hall, hopen]
  have haccepts : ∀ m ∈ members, acceptsInList m.1 m.2 = true := by
    intro m hm
    by_cases hname : m.1 = "items"
    · rw [hname, h.value_items hm hname]
      exact hlist
    · exact h.others m hm hname
  rw [nodesOf, if_pos ⟨hcount, h.metadata, List.all_eq_true.mpr haccepts⟩, hlookup]
  rfl

namespace NodeServer

variable {server server' : NodeServer} {object : Value} {answer : Option Answer}
  {seen : Node} {changes : LabelChanges}

/-- A node object that belongs under this name. It can be written, and it can be read by itself and
inside a list, where two more containers are open around it. -/
structure Holds (name : String) (object : Value) : Prop where
  name : (Node.ofObject object).name = name
  alone : Schema.node.accepts maxDepth object = true
  listed : Schema.node.accepts (maxDepth - 2) object = true
  writable : object.Writable

def Sound (server : NodeServer) : Prop :=
  ∀ name object, server.objects.get? name = some object → Holds name object

theorem Sound.of_mem (h : server.Sound) {e : String × Value} (he : e ∈ server.objects.entries) :
    Holds e.1 e.2 := h e.1 e.2 (lookup_of_mem server.objects.nodup_names he)

theorem nodes_store (h : server.Sound) : server.store.nodes = server.objects.map Node.ofObject := by
  -- the store names each node by itself, and that is the name its object stands under
  have hentries : (server.objects.entries.map fun e => Node.ofObject e.2).map
      (fun node => (node.name, node)) = (server.objects.map Node.ofObject).entries := by
    rw [List.map_map]
    refine List.map_congr_left fun e he => ?_
    exact congrArg (·, Node.ofObject e.2) (h.of_mem he).name
  rw [store, Store.ofList_nodes, hentries, LabelMap.ofList_entries]

theorem find?_store (h : server.Sound) (name : String) :
    server.store.find? name = (server.objects.get? name).map Node.ofObject := by
  rw [Store.find?, nodes_store h, LabelMap.get?_map]

theorem list_store (h : server.Sound) :
    server.store.list = server.objects.entries.map fun e => Node.ofObject e.2 := by
  rw [Store.list, nodes_store h, LabelMap.map, List.map_map]
  rfl

theorem store_insert (h : server.Sound) (hobject : Holds name object) :
    (NodeServer.mk (server.objects.insert name object)).Sound ∧
      (NodeServer.mk (server.objects.insert name object)).store =
        server.store.put (Node.ofObject object) := by
  have hsound : (NodeServer.mk (server.objects.insert name object)).Sound := by
    intro key found hfound
    rw [LabelMap.get?_insert] at hfound
    split at hfound
    next hkey =>
      obtain rfl := Option.some.inj hfound
      exact hkey ▸ hobject
    next => exact h key found hfound
  have hnodes : (NodeServer.mk (server.objects.insert name object)).store.nodes =
      (server.store.put (Node.ofObject object)).nodes := by
    rw [nodes_store hsound, LabelMap.map_insert, ← nodes_store h, Store.put, hobject.name]
  exact ⟨hsound, congrArg Store.mk hnodes⟩

theorem ofObject_bump (object : Value) :
    Node.ofObject (bump object) = (Node.ofObject object).bump := by
  have hnodup : ((Node.versionMember (Node.ofObject object).bump.resourceVersion).map
      (·.1)).Nodup := List.nodup_singleton _
  have hname : (Node.versionMember (Node.ofObject object).bump.resourceVersion).lookup "name" =
      none := rfl
  have hlabels : (Node.versionMember (Node.ofObject object).bump.resourceVersion).lookup "labels" =
      none := rfl
  have hbump : bump object = object.mergePatch (Node.metadataPatch
      (Node.versionMember (Node.ofObject object).bump.resourceVersion)) := rfl
  rw [hbump, Node.ofObject_metadataPatch hnodup hname, get?_mergePatch hnodup,
    get?_mergePatch hnodup, hlabels, ← Node.labels_ofObject]
  rfl

theorem accepts_bump {room : Nat} (hroom : 1 < room) (h : Schema.node.accepts room object = true) :
    Schema.node.accepts room (bump object) = true := by
  refine Schema.accepts_metadataPatch hroom h ?_
  exact forall_mem_setMember (Schema.acceptsMember_version _)
    (Schema.members_of_optional (Schema.accepts_metadata h))

theorem writable_versionMember (version : Option String) :
    ∀ m ∈ Node.versionMember version, m.2.Writable := by
  cases version with
  | none => exact List.forall_mem_nil _
  | some version => exact List.forall_mem_singleton.mpr (.string version)

theorem writable_labelPatch (seen : Node) (changes : LabelChanges) :
    (seen.labelPatch changes).Writable := by
  have hlabels : ∀ m ∈ Node.labelMembers changes, m.2.Writable := by
    intro m hm
    obtain ⟨⟨name, value⟩, -, rfl⟩ := List.mem_map.mp hm
    cases value with
    | none => exact .null
    | some value => exact .string value
  exact .object (List.forall_mem_singleton.mpr (.object
    (List.forall_mem_cons.mpr ⟨.object hlabels, writable_versionMember _⟩)))

theorem writable_bump (h : object.Writable) : (bump object).Writable :=
  .of_mergePatch (.object (List.forall_mem_singleton.mpr (.object (writable_versionMember _)))) h

theorem Holds.patched (h : Holds name object) (seen : Node) (changes : LabelChanges) :
    Holds name (bump (object.mergePatch (seen.labelPatch changes))) where
  name := by
    rw [ofObject_bump, Node.ofObject_labelPatch]
    exact h.name
  alone := accepts_bump (by decide) (Schema.accepts_labelPatch (by decide) h.alone seen changes)
  listed := accepts_bump (by decide) (Schema.accepts_labelPatch (by decide) h.listed seen changes)
  writable := writable_bump (.of_mergePatch (writable_labelPatch seen changes) h.writable)

theorem version_labelPatch (seen : Node) (changes : LabelChanges) :
    (Node.ofObject (seen.labelPatch changes)).resourceVersion = seen.resourceVersion := by
  have hversion := Node.member?_version_labelPatch seen changes
  rw [Node.versionPath, Node.member?_metadata, Node.member?_singleton] at hversion
  rw [Node.version_ofObject, hversion]
  cases seen.resourceVersion <;> rfl

theorem ofObject_patched (hcurrent : Store.isCurrent (Node.ofObject object) seen = true) :
    Node.ofObject (bump (object.mergePatch (seen.labelPatch changes))) =
      { Node.ofObject object with
        labels := (Node.ofObject object).labels.apply changes }.bump := by
  have hversion : seen.resourceVersion.or (Node.ofObject object).resourceVersion =
      (Node.ofObject object).resourceVersion := by
    rw [Store.isCurrent] at hcurrent
    cases hseen : seen.resourceVersion with
    | none => rfl
    | some version => simpa [hseen] using hcurrent
  rw [ofObject_bump, Node.ofObject_labelPatch, hversion]
  rfl

/-- The patch is merged exactly where a write conditioned on the version of `seen` may go ahead. -/
theorem isCurrent_labelPatch (node : Node) :
    Store.isCurrent node (Node.ofObject (seen.labelPatch changes)) = Store.isCurrent node seen := by
  rw [Store.isCurrent, Store.isCurrent, version_labelPatch]

theorem patch_labelPatch (h : server.Sound) (seen : Node) (changes : LabelChanges) :
    (server.patch seen.name (seen.labelPatch changes)).map store =
      server.store.patch seen changes := by
  rw [NodeServer.patch, Store.patch, find?_store h]
  cases hobject : server.objects.get? seen.name with
  | none => rfl
  | some object =>
    simp only [isCurrent_labelPatch, Option.map_some]
    split
    next hcurrent =>
      have hobject' := (h seen.name object hobject).patched seen changes
      exact congrArg Except.ok ((store_insert h hobject').2.trans
        (congrArg server.store.put (ofObject_patched hcurrent)))
    next => rfl

theorem patch_error {body : Value} {failure : Failure}
    (h : server.patch name body = .error failure) :
    failure = .nodeNotFound name ∨ failure = .conflict name := by
  rw [NodeServer.patch] at h
  split at h
  · exact .inl (Except.error.inj h).symm
  · split at h
    · cases h
    · exact .inr (Except.error.inj h).symm

theorem found_of_patch (h : server.Sound)
    (hpatch : server.patch seen.name (seen.labelPatch changes) = .ok server') :
    server'.Sound ∧ ∃ object, server'.objects.get? seen.name = some object := by
  rw [NodeServer.patch] at hpatch
  cases hobject : server.objects.get? seen.name with
  | none =>
    rw [hobject] at hpatch
    cases hpatch
  | some object =>
    simp only [hobject] at hpatch
    split at hpatch
    next =>
      obtain rfl := Except.ok.inj hpatch
      have hobject' := (h seen.name object hobject).patched seen changes
      exact ⟨(store_insert h hobject').1, _, (LabelMap.get?_insert ..).trans (if_pos rfl)⟩
    next => cases hpatch

/-- The answer carries the object, or tells in a status why there is none. -/
def Tells (answer : Option Answer) : Except Failure Value → Prop
  | .ok object => resultOf answer = .ok object
  | .error (.nodeNotFound _) =>
    ∃ message, resultOf answer = .error (.status ⟨404, "NotFound", message⟩)
  | .error (.conflict _) =>
    ∃ reason message, resultOf answer = .error (.status ⟨409, reason, message⟩)
  | .error _ => False

/-- What the server does with a request, and how it may word the answer. It lists its objects in the
order of their names. -/
inductive Serves (server : NodeServer) (request : Request) (answer : Option Answer) :
    NodeServer → Prop where
  | list {members : List (String × Value)} (method : request.method = .get)
      (path : request.nodeName? = none)
      (items : IsNodeList (server.objects.entries.map (·.2)) members)
      (body : resultOf answer = .ok (.object members)) : Serves server request answer server
  | get {name : String} (method : request.method = .get) (path : request.nodeName? = some name)
      (body : Tells answer (server.get name)) : Serves server request answer server
  | patch {name : String} {next : NodeServer} (method : request.method = .patch)
      (path : request.nodeName? = some name)
      (merged : server.patch name (request.body.getD .null) = .ok next)
      (body : Tells answer (next.get name)) : Serves server request answer next
  | refuse {name : String} {failure : Failure} (method : request.method = .patch)
      (path : request.nodeName? = some name)
      (refused : server.patch name (request.body.getD .null) = .error failure)
      (body : Tells answer (.error failure)) : Serves server request answer server

/-- The way to a server that nobody else talks to. -/
def setting : Setting Channel NodeServer where
  Serves := Serves
  Others := Eq
  idle _ := rfl
  chain h h' := h.trans h'

theorem listed_of_items (h : server.Sound) {members : List (String × Value)}
    (hitems : IsNodeList (server.objects.entries.map (·.2)) members)
    (hanswer : resultOf answer = .ok (.object members)) : listed answer = .ok server.store.list := by
  have hobjects : ∀ object ∈ server.objects.entries.map (·.2),
      Schema.node.accepts (maxDepth - 2) object = true := by
    intro object hobject
    obtain ⟨e, he, rfl⟩ := List.mem_map.mp hobject
    exact (h.of_mem he).listed
  have hread : resultOf answer >>= nodesOf = .ok server.store.list := by
    rw [hanswer, list_store h]
    refine (nodesOf_list hitems hobjects).trans ?_
    rw [List.map_map]
    rfl
  rw [listed, hread]

theorem nodeOf_eq (h : Schema.node.accepts maxDepth object = true) :
    nodeOf object = .ok (Node.ofObject object) := by
  rw [nodeOf, Node.ofObject?, if_pos h]

theorem read_of_tells (h : server.Sound) (hobject : server.objects.get? name = some object)
    (htells : Tells answer (server.get name)) :
    resultOf answer >>= nodeOf = .ok (Node.ofObject object) := by
  have hanswer : resultOf answer = .ok object := by
    rw [NodeServer.get, hobject] at htells
    exact htells
  rw [hanswer]
  exact nodeOf_eq (h name object hobject).alone

theorem got_of_tells (h : server.Sound) (htells : Tells answer (server.get name)) :
    got name answer = server.store.get name := by
  rw [Store.get, find?_store h]
  cases hobject : server.objects.get? name with
  | none =>
    rw [NodeServer.get, hobject] at htells
    obtain ⟨message, hanswer⟩ := htells
    rw [got, hanswer]
    rfl
  | some object =>
    rw [got, read_of_tells h hobject htells]
    rfl

theorem patched_ok (h : server.Sound) (hobject : server.objects.get? name = some object)
    (htells : Tells answer (server.get name)) : patched name answer = .ok () := by
  rw [patched, read_of_tells h hobject htells]

theorem patched_error {failure : Failure}
    (hfailure : failure = .nodeNotFound name ∨ failure = .conflict name)
    (htells : Tells answer (.error failure)) : patched name answer = .error failure := by
  rcases hfailure with rfl | rfl
  · obtain ⟨message, hanswer⟩ := htells
    rw [patched, hanswer]
    rfl
  · obtain ⟨reason, message, hanswer⟩ := htells
    rw [patched, hanswer]
    rfl

/-! The server has a wording for each of its answers, since its objects have texts. -/

theorem fromUTF8?_toUTF8 (text : String) : String.fromUTF8? text.toUTF8 = some text :=
  dif_pos text.isValidUTF8

theorem resultOf_text {value : Value} {text : String} (h : Value.ofText? text = some value) :
    resultOf (some ⟨200, text.toUTF8⟩) = .ok value := by
  have hstatus : isErrorStatus 200 = false := by decide
  simp only [resultOf, fromUTF8?_toUTF8, hstatus, h, Bool.false_eq_true, if_false]

theorem exists_resultOf (h : object.Writable) : ∃ answer, resultOf answer = .ok object := by
  obtain ⟨text, htext⟩ := h.exists_text
  exact ⟨_, resultOf_text htext⟩

theorem ofValue?_statusObject {status : ApiStatus} (hcode : status.code < 1 <<< 16) :
    ApiStatus.ofValue? (statusObject status) = some status := by
  -- the code is the last member, and every other one has the shape of its field
  have hshape : (Schema.record Schema.statusFields).accepts maxDepth (statusObject status) =
      (decide (status.code < 1 <<< 16) && true) := rfl
  have haccepts :
      (Schema.record Schema.statusFields).accepts maxDepth (statusObject status) = true := by
    rw [hshape, Bool.and_true]
    exact decide_eq_true hcode
  rw [ApiStatus.ofValue?, if_pos haccepts]
  rfl

theorem exists_resultOf_status {status : ApiStatus} (hcode : isErrorStatus status.code = true) :
    ∃ answer, resultOf answer = .error (.status status) := by
  have hrange : status.code < 600 := by simpa using (Bool.and_eq_true_iff.mp hcode).2
  have hlarge : 600 < 1 <<< 16 ∧ 600 < 1 <<< 63 := by decide
  have hnumber : (Value.number (.natural status.code)).Writable := .natural (hrange.trans hlarge.2)
  have hwritable : (statusObject status).Writable := by simp [statusObject, hnumber]
  obtain ⟨text, htext⟩ := hwritable.exists_text
  have hstatus : ApiStatus.ofValue? (statusObject status) = some status :=
    ofValue?_statusObject (hrange.trans hlarge.1)
  refine ⟨some ⟨status.code, text.toUTF8⟩, ?_⟩
  simp only [resultOf, fromUTF8?_toUTF8, hcode, htext, Option.bind_some, hstatus, if_true]

theorem exists_tells_error {failure : Failure}
    (hfailure : failure = .nodeNotFound name ∨ failure = .conflict name) :
    ∃ answer, Tells answer (.error failure) := by
  rcases hfailure with rfl | rfl
  · have hmissing : isErrorStatus (ApiStatus.mk 404 "NotFound" name).code = true := rfl
    obtain ⟨answer, hanswer⟩ := exists_resultOf_status hmissing
    exact ⟨answer, name, hanswer⟩
  · have hconflict : isErrorStatus (ApiStatus.mk 409 "Conflict" name).code = true := rfl
    obtain ⟨answer, hanswer⟩ := exists_resultOf_status hconflict
    exact ⟨answer, "Conflict", name, hanswer⟩

theorem exists_tells (h : server.Sound) (name : String) :
    ∃ answer, Tells answer (server.get name) := by
  rw [NodeServer.get]
  cases hobject : server.objects.get? name with
  | none => exact exists_tells_error (.inl rfl)
  | some object => exact exists_resultOf (h name object hobject).writable

theorem exists_serves_list (h : server.Sound) :
    ∃ answer server', server.Serves listNodes answer server' := by
  have hobjects : ∀ object ∈ server.objects.entries.map (·.2), object.Writable := by
    intro object hobject
    obtain ⟨e, he, rfl⟩ := List.mem_map.mp hobject
    exact (h.of_mem he).writable
  have hwritable : (Value.object
      [("items", .array (server.objects.entries.map (·.2)))]).Writable :=
    .object (List.forall_mem_singleton.mpr (.array hobjects))
  obtain ⟨answer, hanswer⟩ := exists_resultOf hwritable
  have hitems : IsNodeList (server.objects.entries.map (·.2))
      [("items", .array (server.objects.entries.map (·.2)))] := by
    refine ⟨rfl, Nat.zero_le 1, fun m hm hname => ?_⟩
    exact absurd (congrArg Prod.fst (List.mem_singleton.mp hm)) hname
  exact ⟨answer, server, .list rfl nodeName?_listNodes hitems hanswer⟩

theorem exists_serves_get (h : server.Sound) {request : Request} (hmethod : request.method = .get)
    (hpath : request.nodeName? = some name) :
    ∃ answer server', server.Serves request answer server' := by
  obtain ⟨answer, htells⟩ := exists_tells h name
  exact ⟨answer, server, .get hmethod hpath htells⟩

theorem exists_serves_patch (h : server.Sound) {request : Request}
    (hmethod : request.method = .patch) (hpath : request.nodeName? = some seen.name)
    (hbody : request.body = some (seen.labelPatch changes)) :
    ∃ answer server', server.Serves request answer server' := by
  cases hpatch : server.patch seen.name (request.body.getD .null) with
  | ok next =>
    have hmerged := hpatch
    rw [hbody, Option.getD_some] at hmerged
    obtain ⟨answer, htells⟩ := exists_tells (found_of_patch h hmerged).1 seen.name
    exact ⟨answer, next, .patch hmethod hpath hpatch htells⟩
  | error failure =>
    obtain ⟨answer, htells⟩ := exists_tells_error (patch_error hpatch)
    exact ⟨answer, server, .refuse hmethod hpath hpatch htells⟩

end NodeServer

end Api

end NodeRollout
