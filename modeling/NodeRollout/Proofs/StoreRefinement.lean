import NodeRollout.Proofs.NodeServer

/-! The node store kept by the API server does what the store in memory does. The server keeps
objects and is asked over a channel; call by call the answers mean the same as those of the store of
the nodes that are read from the objects, and the two stay alike. No call is left unanswered. -/
namespace NodeRollout

/-- What a node store can be asked. -/
inductive StoreCall where
  | list
  | get (name : String)
  | patch (seen : Node) (changes : LabelChanges)

@[reducible] def StoreCall.Answer : StoreCall → Type
  | .list => Except Failure (List Node)
  | .get _ => Except Failure Node
  | .patch .. => Except Failure Unit

abbrev NodeStore : Interface := ⟨StoreCall, StoreCall.Answer⟩

namespace Store

variable {store : Store} {seen : Node} {changes : LabelChanges}

/-- Changes labels of the node that was read as `seen` if it still has the very version of that,
where to have none is a version like any other. -/
def patchSame (store : Store) (seen : Node) (changes : LabelChanges) : Except Failure Store :=
  match store.find? seen.name with
  | none => .error (.nodeNotFound seen.name)
  | some node =>
    if node.resourceVersion = seen.resourceVersion then
      .ok (store.put { node with labels := node.labels.apply changes }.bump)
    else .error (.conflict seen.name)

theorem isCurrent_iff {node : Node} (hversion : seen.resourceVersion.isSome) :
    isCurrent node seen = true ↔ node.resourceVersion = seen.resourceVersion := by
  obtain ⟨version, hseen⟩ := Option.isSome_iff_exists.mp hversion
  rw [isCurrent, hseen, Option.isNone_some, Bool.false_or, beq_iff_eq]
  exact eq_comm

/-- For a node that was read with a version this is the usual patch; without one, that goes ahead. -/
theorem patchSame_eq (hversion : seen.resourceVersion.isSome) :
    store.patchSame seen changes = store.patch seen changes := by
  rw [patchSame, patch]
  cases store.find? seen.name with
  | none => rfl
  | some node => simp only [isCurrent_iff hversion]

/-- The answer of the store in memory to a call, and the store after it. -/
def serve (store : Store) : (c : StoreCall) → c.Answer × Store
  | .list => (.ok store.list, store)
  | .get name => (store.get name, store)
  | .patch seen changes =>
    match store.patchSame seen changes with
    | .ok next => (.ok (), next)
    | .error failure => (.error failure, store)

def serveAll (store : Store) : List StoreCall → List (Program.Event NodeStore) × Store
  | [] => ([], store)
  | c :: rest =>
    let served := store.serve c
    let others := served.2.serveAll rest
    (⟨c, served.1⟩ :: others.1, others.2)

end Store

namespace Api

open Json

/-- The way to the server by which a call of the store is made. -/
def call : (c : StoreCall) → Program Channel c.Answer
  | .list => list
  | .get name => get name
  | .patch seen changes => patch seen changes

/-- The calls one after the other, with their answers. -/
def session : List StoreCall → Program Channel (List (Program.Event NodeStore))
  | [] => .done []
  | c :: rest => call c >>= fun answer => session rest >>= fun events =>
    .done (⟨c, answer⟩ :: events)

/-- A call for which the store in memory and the way to the server are meant to agree: the name can
stand in an address, and a node that labels are changed of was read with a version. -/
def Allowed : StoreCall → Prop
  | .list => True
  | .get name => Addressable name
  | .patch seen _ => Addressable seen.name ∧ seen.resourceVersion.isSome

namespace NodeServer

variable {server server' : NodeServer} {name : String} {seen : Node}

theorem assures_exchange {α : Type} {request : Request} {read : Option Answer → Except Failure α}
    {Q : NodeServer → Except Failure α → Prop}
    (h : ∀ answer server', server.Serves request answer server' → Q server' (read answer)) :
    Assures setting (fun _ => True) (exchange (.ok request) read) Q server := by
  refine .call fun t ht answer server' hserves => ⟨trivial, .done fun u hu => ?_⟩
  obtain rfl : server = t := ht
  obtain rfl : server' = u := hu
  exact h answer server' hserves

/-! The method and the path of a request leave one way to serve it. -/

theorem assures_list (h : server.Sound) : Assures setting (fun _ => True) list
    (fun server' answer => server' = server ∧ answer = .ok server.store.list) server := by
  refine assures_exchange fun answer server' hserves => ?_
  cases hserves with
  | list _ _ hitems hbody => exact ⟨rfl, listed_of_items h hitems hbody⟩
  | get _ hpath => cases nodeName?_listNodes.symm.trans hpath
  | patch hmethod => cases hmethod
  | refuse hmethod => cases hmethod

theorem assures_get (h : server.Sound) (hname : Addressable name) :
    Assures setting (fun _ => True) (Api.get name)
      (fun server' answer => server' = server ∧ answer = server.store.get name) server := by
  obtain ⟨request, hrequest, hmethod, hpath⟩ := getNode_eq hname
  rw [Api.get, hrequest]
  refine assures_exchange fun answer server' hserves => ?_
  cases hserves with
  | list _ hpath' => cases hpath.symm.trans hpath'
  | get _ hpath' hbody =>
    obtain rfl := Option.some.inj (hpath.symm.trans hpath')
    exact ⟨rfl, got_of_tells h hbody⟩
  | patch hmethod' => cases hmethod.symm.trans hmethod'
  | refuse hmethod' => cases hmethod.symm.trans hmethod'

theorem assures_patch (h : server.Sound) (hname : Addressable seen.name)
    (hversion : seen.resourceVersion.isSome) (changes : LabelChanges) :
    Assures setting (fun _ => True) (Api.patch seen changes)
      (fun server' answer => server'.Sound ∧
        (answer, server'.store) = server.store.serve (.patch seen changes)) server := by
  obtain ⟨request, hrequest, hmethod, hpath, hcarried⟩ := patchNode_eq hname changes
  rw [Api.patch, hrequest]
  refine assures_exchange fun answer server' hserves => ?_
  -- the server patches its object exactly when the store in memory patches its node
  have hsame := patch_labelPatch h seen changes
  rw [← Store.patchSame_eq hversion] at hsame
  cases hserves with
  | list hmethod' => cases hmethod.symm.trans hmethod'
  | get hmethod' => cases hmethod.symm.trans hmethod'
  | patch _ hpath' hmerged hbody =>
    obtain rfl := Option.some.inj (hpath.symm.trans hpath')
    rw [hcarried, Option.getD_some] at hmerged
    obtain ⟨hsound, object, hobject⟩ := found_of_patch h hmerged
    rw [hmerged] at hsame
    rw [Store.serve, ← hsame, patched_ok hsound hobject hbody]
    exact ⟨hsound, rfl⟩
  | refuse _ hpath' hrefused hbody =>
    obtain rfl := Option.some.inj (hpath.symm.trans hpath')
    rw [hcarried, Option.getD_some] at hrefused
    rw [hrefused] at hsame
    rw [Store.serve, ← hsame, patched_error (patch_error hrefused) hbody]
    exact ⟨h, rfl⟩

/-- A call against the server ends as it does in the store that the server stands for. -/
theorem assures_call (h : server.Sound) {c : StoreCall} (hc : Allowed c) :
    Assures setting (fun _ => True) (call c)
      (fun server' answer => server'.Sound ∧ (answer, server'.store) = server.store.serve c)
      server := by
  cases c with
  | list =>
    refine (assures_list h).mono ?_
    rintro _ _ ⟨rfl, rfl⟩
    exact ⟨h, rfl⟩
  | get name =>
    refine (assures_get h hc).mono ?_
    rintro _ _ ⟨rfl, rfl⟩
    exact ⟨h, rfl⟩
  | patch seen changes => exact assures_patch h hc.1 hc.2 changes

theorem assures_session {calls : List StoreCall} (h : server.Sound)
    (hcalls : ∀ c ∈ calls, Allowed c) :
    Assures setting (fun _ => True) (session calls)
      (fun server' events => server'.Sound ∧ (events, server'.store) = server.store.serveAll calls)
      server := by
  -- what a call leaves is sound again, so the rest of the calls starts like the first one
  induction calls generalizing server with
  | nil =>
    refine .done fun t ht => ?_
    obtain rfl : server = t := ht
    exact ⟨h, rfl⟩
  | cons c rest ih =>
    obtain ⟨hc, hrest⟩ := List.forall_mem_cons.mp hcalls
    refine .bind ((assures_call h hc).mono fun next answer hnext => ?_)
    obtain ⟨hsound, hserve⟩ := hnext
    refine .bind ((ih hsound hrest).mono fun last events hlast => .done fun t ht => ?_)
    obtain rfl : last = t := ht
    obtain ⟨hsound', hserve'⟩ := hlast
    refine ⟨hsound', ?_⟩
    rw [Store.serveAll, ← hserve, ← hserve']

theorem returns_exchange {α : Type} {request : Request}
    {read : Option Answer → Except Failure α}
    (h : ∃ answer server', server.Serves request answer server') :
    Returns setting (fun _ _ => True) (exchange (.ok request) read) server := by
  refine .call_freely (fun _ => trivial) (fun t ht => ?_) fun _ _ _ _ _ => .done
  obtain rfl : server = t := ht
  exact h

theorem returns_call (h : server.Sound) {c : StoreCall} (hc : Allowed c) :
    Returns setting (fun _ _ => True) (call c) server := by
  cases c with
  | list => exact returns_exchange (exists_serves_list h)
  | get name =>
    obtain ⟨request, hrequest, hmethod, hpath⟩ := getNode_eq hc
    rw [call, Api.get, hrequest]
    exact returns_exchange (exists_serves_get h hmethod hpath)
  | patch seen changes =>
    obtain ⟨request, hrequest, hmethod, hpath, hcarried⟩ := patchNode_eq hc.1 changes
    rw [call, Api.patch, hrequest]
    exact returns_exchange (exists_serves_patch h hmethod hpath hcarried)

/-- Whatever was answered so far, the next request has an answer. -/
theorem returns_session {calls : List StoreCall} (h : server.Sound)
    (hcalls : ∀ c ∈ calls, Allowed c) :
    Returns setting (fun _ _ => True) (session calls) server := by
  induction calls generalizing server with
  | nil => exact .done
  | cons c rest ih =>
    obtain ⟨hc, hrest⟩ := List.forall_mem_cons.mp hcalls
    refine .bind (returns_call h hc) (assures_call h hc) fun next answer hnext => ?_
    exact .bind (ih hnext.1 hrest) (assures_session hnext.1 hrest) fun _ _ _ => .done

/-! A session of two writers that mark one node. -/

/-- An object of a node whose labels are null. -/
def plainObject : Value := .object [("metadata", .object [("name", .string "w1"),
  ("labels", .null), ("resourceVersion", .string "7")])]

def plainNode : Node := ⟨"w1", some "7", ∅, "", "", "", false⟩

def mark : LabelChanges := .singleton Label.selection (some "v1.30.0")

def markedNode : Node := ⟨"w1", some "8", .singleton Label.selection "v1.30.0", "", "", "", false⟩

theorem accepts_plainObject {room : Nat} (hroom : 1 < room) :
    Schema.node.accepts room plainObject = true := by
  have hname : Schema.acceptsMember (room - 1 - 1) Schema.objectMeta.known "name"
      (.string "w1") = true := by
    simp [Schema.objectMeta, Schema.nullable, Schema.texts, Schema.known, Schema.acceptsMember,
      Schema.accepts]
  have hlabels : Schema.acceptsMember (room - 1 - 1) Schema.objectMeta.known "labels"
      .null = true := by
    rw [Schema.acceptsMember_labels]
    simp [Schema.accepts]
  refine Schema.accepts_fields.mpr ⟨by omega, List.forall_mem_singleton.mpr ?_⟩
  refine Schema.acceptsMember_metadata.trans ?_
  rw [Schema.accepts_optional_object]
  refine Schema.accepts_fields.mpr ⟨by omega, ?_⟩
  simp only [List.forall_mem_cons]
  exact ⟨hname, hlabels, Schema.acceptsMember_version "7", List.forall_mem_nil _⟩

theorem sound_plainObject : (NodeServer.mk (.singleton "w1" plainObject)).Sound := by
  intro name object hobject
  rw [LabelMap.get?_singleton] at hobject
  split at hobject
  next hname =>
    obtain rfl := Option.some.inj hobject
    exact ⟨hname.symm, accepts_plainObject (by decide), accepts_plainObject (by decide),
      by simp [plainObject]⟩
  next => cases hobject

/-- The store kept by the server refines the store in memory: a patch changes the labels of any node
object as asked, and a session of calls ends, with the answers and the nodes that it would have in
the store of the nodes that the objects stand for. -/
theorem refines_store (h : server.Sound) {calls : List StoreCall} (hcalls : ∀ c ∈ calls, Allowed c) :
    (∀ seen changes object,
      Node.Patches seen changes object (object.mergePatch (seen.labelPatch changes)) ∧
        Node.member? (seen.labelPatch changes) Node.versionPath =
          seen.resourceVersion.map .string) ∧
    Assures setting (fun _ => True) (session calls)
      (fun server' events => server'.Sound ∧ (events, server'.store) = server.store.serveAll calls)
      server ∧
    Returns setting (fun _ _ => True) (session calls) server :=
  ⟨fun seen changes object => ⟨Node.patches_labelPatch seen changes object,
    Node.member?_version_labelPatch seen changes⟩, assures_session h hcalls,
    returns_session h hcalls⟩

/-- Two writers mark the record of a node that both have read, and the second is refused. -/
theorem refines_store_marking : ∃ ms server',
    Course setting ⟨.singleton "w1" plainObject⟩
        (session [.get "w1", .patch plainNode mark, .patch plainNode mark, .get "w2", .list]) ms
        server'
        (.done [⟨.get "w1", .ok plainNode⟩, ⟨.patch plainNode mark, .ok ()⟩,
          ⟨.patch plainNode mark, .error (.conflict "w1")⟩,
          ⟨.get "w2", .error (.nodeNotFound "w2")⟩, ⟨.list, .ok [markedNode]⟩]) ∧
      server'.store = ⟨.singleton "w1" markedNode⟩ := by
  have haddress : Addressable "w1" ∧ Addressable "w2" :=
    ⟨.of_allowed (by decide) (List.all_eq_true.mp (by decide)) (by decide),
      .of_allowed (by decide) (List.all_eq_true.mp (by decide)) (by decide)⟩
  have hversion : plainNode.resourceVersion.isSome = true := rfl
  have hcalls : ∀ c ∈ [StoreCall.get "w1", .patch plainNode mark, .patch plainNode mark,
      .get "w2", .list], Allowed c := by
    simp [Allowed, haddress, hversion, show plainNode.name = "w1" from rfl]
  obtain ⟨-, hassures, hreturns⟩ := refines_store sound_plainObject hcalls
  obtain ⟨ms, server', events, hcourse, -⟩ := hreturns.permits
  have hserved : (NodeServer.mk (.singleton "w1" plainObject)).store.serveAll
      [.get "w1", .patch plainNode mark, .patch plainNode mark, .get "w2", .list] =
        ([⟨.get "w1", .ok plainNode⟩, ⟨.patch plainNode mark, .ok ()⟩,
          ⟨.patch plainNode mark, .error (.conflict "w1")⟩,
          ⟨.get "w2", .error (.nodeNotFound "w2")⟩, ⟨.list, .ok [markedNode]⟩],
          ⟨.singleton "w1" markedNode⟩) := rfl
  obtain ⟨-, hsame⟩ := hassures.result hcourse
  rw [hserved, Prod.mk.injEq] at hsame
  obtain ⟨rfl, hstore⟩ := hsame
  exact ⟨ms, server', hcourse, hstore⟩

end NodeServer

end Api

end NodeRollout
