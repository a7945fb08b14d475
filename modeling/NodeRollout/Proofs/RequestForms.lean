import Mathlib.Data.List.Permutation
import NodeRollout.Proofs.Messages
import NodeRollout.Proofs.RecordMembers

/-! The forms of a request. However a request is written, it is decoded as what it says: the method
and the parameters may come in either order, the fields in any order among unknown members, or both
by position, and every word in any of its spellings. Nothing is filled in: without one of the fields,
or with one given twice or of another type, there is no request. -/
namespace NodeRollout.PushRequest

open Json

section Fields

variable {draft : Draft} {name : String} {seen : Seen}

/-- The type of a field: `control_plane` is a boolean, every other one a string. -/
def Takes (name : String) (seen : Seen) : Prop :=
  if name = "control_plane" then ∃ b, seen = .bool b else ∃ s, seen = .string s

def fields : List (Record.Field Draft) := [
  ⟨"kube_version", String, Seen.asString, (·.kubeVersion), fun d v => { d with kubeVersion := v }⟩,
  ⟨"os_version", String, Seen.asString, (·.osVersion), fun d v => { d with osVersion := v }⟩,
  ⟨"os_image_url", String, Seen.asString, (·.osImageUrl), fun d v => { d with osImageUrl := v }⟩,
  ⟨"control_plane", Bool, Seen.asBool, (·.controlPlane), fun d v => { d with controlPlane := v }⟩]

theorem laid : record.Laid fields where
  names := rfl
  slot draft := by simp [fields, record, Draft.slot]
  unknown draft name hname := by
    show draft.slot name = .unknown
    unfold Draft.slot
    split <;> simp_all [record]
  blank := by simp [fields, record]
  put := by simp [fields]
  scalar := by simp [fields, Seen.asString, Seen.asBool]

theorem takes_of_fields (h : Record.Takes fields name seen) : Takes name seen := by
  obtain ⟨field, hfield, rfl, v, hread⟩ := h
  simp only [fields, List.mem_cons, List.not_mem_nil, or_false] at hfield
  rcases hfield with rfl | rfl | rfl | rfl
  case inr.inr.inr => exact ⟨v, Seen.eq_bool_of_asBool hread⟩
  all_goals exact ⟨v, Seen.eq_string_of_asString hread⟩

theorem request_eq_ok {request : PushRequest} : draft.request = .ok request ↔
    draft = ⟨some request.kubeVersion, some request.osVersion, some request.osImageUrl,
      some request.controlPlane⟩ := by
  constructor
  · intro h
    obtain ⟨kubeVersion, osVersion, osImageUrl, controlPlane⟩ := draft
    cases kubeVersion <;> cases osVersion <;> cases osImageUrl <;> cases controlPlane <;> cases h
    rfl
  · rintro rfl
    rfl

theorem filled_of_request {request : PushRequest} (h : draft.request = .ok request)
    (hname : name ∈ record.fields) : record.Filled draft name := by
  obtain rfl := request_eq_ok.mp h
  have hget : ∀ field ∈ fields, (field.get ⟨some request.kubeVersion, some request.osVersion,
      some request.osImageUrl, some request.controlPlane⟩).isSome := by simp [fields]
  obtain ⟨field, hfield, rfl⟩ := laid.exists_field hname
  exact laid.filled_iff.mpr ⟨field, hfield, rfl, hget field hfield⟩

/-- The members of an object that holds the fields of the request. -/
def members (request : PushRequest) : List (String × Value) := [
  ("kube_version", .string request.kubeVersion), ("os_version", .string request.osVersion),
  ("os_image_url", .string request.osImageUrl), ("control_plane", .bool request.controlPlane)]

/-- The drafts of a request. -/
def family (request : PushRequest) : record.Family request.members where
  draft found := {
    kubeVersion := if found "kube_version" then some request.kubeVersion else none
    osVersion := if found "os_version" then some request.osVersion else none
    osImageUrl := if found "os_image_url" then some request.osImageUrl else none
    controlPlane := if found "control_plane" then some request.controlPlane else none }
  names := rfl
  distinct := by simp [record]
  blank := by simp [record]
  congr h := by
    rw [h "kube_version" (by simp [record]), h "os_version" (by simp [record]),
      h "os_image_url" (by simp [record]), h "control_plane" (by simp [record])]
  fills hfield hfree := by
    simp only [members, List.mem_cons, Prod.mk.injEq, List.not_mem_nil, or_false] at hfield
    rcases hfield with ⟨rfl, rfl⟩ | ⟨rfl, rfl⟩ | ⟨rfl, rfl⟩ | ⟨rfl, rfl⟩
    all_goals
      exact ⟨_, rfl, .of_ofField rfl (by simp [hfree]) rfl (by simp)⟩

end Fields

section Parameters

variable {request : PushRequest} {params : Value}

/-- The parameters give the fields of the request: as an object in any order among unknown members,
or as an array in the order of the record. -/
inductive Gives (request : PushRequest) : Value → Prop where
  | object {members extras : List (String × Value)}
      (order : members.Perm (request.members ++ extras))
      (unknown : ∀ member ∈ extras, member.1 ∉ record.fields)
      -- all of them are kept where the parameters come before the method
      (shallow : ∀ member ∈ extras, member.2.fits (keptDepth - 1) = true) :
      Gives request (.object members)
  | array : Gives request (.array (request.members.map Prod.snd))

/-- An object in which a field is missing, given more than once, or of another type. -/
inductive Faulty : Value → Prop where
  | missing {members : List (String × Value)} {name : String} (field : name ∈ record.fields)
      (absent : name ∉ members.map Prod.fst) : Faulty (.object members)
  | repeated {members : List (String × Value)} {name : String} (field : name ∈ record.fields)
      (twice : 2 ≤ (members.map Prod.fst).count name) : Faulty (.object members)
  | retyped {members : List (String × Value)} {name : String} {value : Value}
      (field : name ∈ record.fields) (member : (name, value) ∈ members)
      (type : ∀ seen, value.seen = .ok seen → ¬ Takes name seen) : Faulty (.object members)

theorem ofObject_family (keys : String → Bool) (h : ∀ name ∈ record.fields, keys name = true) :
    record.ofObject (request.family.draft keys) = .ok request := by
  apply request_eq_ok.mpr
  show Draft.mk _ _ _ _ = _
  rw [h "kube_version" (by simp [record]), h "os_version" (by simp [record]),
    h "os_image_url" (by simp [record]), h "control_plane" (by simp [record])]
  rfl

theorem ofArray_of_request {draft : Draft} (h : draft.request = .ok request) (count : Nat) :
    record.ofArray draft count = .ok request := by
  simp only [record, h]

/-- What parameters decode to, whether they are read from their words or were kept. -/
structure Decodes (params : Value) (result : Decoded PushRequest) : Prop where
  read : ∀ rest, record.read (params.tokens ++ rest) = result.map (·, rest)
  kept : params.fits keptDepth = true → record.ofValue params = result

theorem decodes_object (members : List (String × Value)) :
    Decodes (.object members) (record.ofMembers members) where
  read := laid.lawful.read_object members
  kept := Record.ofValue_object

theorem Gives.decodes (h : request.Gives params) : Decodes params (.ok request) := by
  cases h with
  | @object members extras order unknown _ =>
    -- no field is left out
    have hall : request.members.filter (fun _ => true) = request.members :=
      List.filter_true request.members
    rw [← hall] at order
    have hmembers := request.family.ofMembers_perm laid.lawful (fun _ => true) order unknown
    rw [ofObject_family _ fun _ _ => rfl] at hmembers
    exact hmembers ▸ decodes_object members
  | array =>
    have hfound : record.ofArray (request.family.draft fun name =>
        (request.members.map Prod.fst).contains name) request.members.length = .ok request := by
      apply ofArray_of_request
      apply ofObject_family
      simp [record, members]
    have hall : request.members ++ [] = request.members := List.append_nil request.members
    exact {
      read := fun rest => by rw [request.family.read_array laid.lawful hall, hfound]
      kept := fun _ => by rw [request.family.ofValue_array hall, hfound] }

theorem Gives.fits (h : request.Gives params) : params.fits keptDepth = true := by
  cases h with
  | @object members extras order _ shallow =>
    show (decide (0 < keptDepth) && Value.membersFit (keptDepth - 1) members) = true
    rw [Bool.and_eq_true_iff]
    refine ⟨rfl, Record.membersFit_iff.mpr fun member hmember => ?_⟩
    rcases List.mem_append.mp (order.mem_iff.mp hmember) with hfield | hextra
    · simp only [PushRequest.members, List.mem_cons, List.not_mem_nil, or_false] at hfield
      rcases hfield with rfl | rfl | rfl | rfl <;> rfl
    · exact shallow member hextra
  | array => rfl

theorem Faulty.decodes (h : Faulty params) : ∃ fault, Decodes params (.error fault) := by
  have hobject : ∃ members, params = .object members := by
    cases h <;> exact ⟨_, rfl⟩
  obtain ⟨members, rfl⟩ := hobject
  have hdecodes := decodes_object members
  cases hresult : record.ofMembers members with
  | error fault => exact ⟨fault, hresult ▸ hdecodes⟩
  | ok request =>
    obtain ⟨filled, hcollect, hobject⟩ := Record.bind_eq_ok.mp hresult
    cases h with
    | missing field absent =>
      have hfilled := filled_of_request hobject field
      rcases (laid.lawful.collected hcollect field).filled_iff.mp hfilled with hblank | hmember
      · exact absurd hblank (laid.lawful.blank _)
      · exact absurd hmember absent
    | repeated field twice =>
      have honce := (laid.lawful.collected hcollect field).once
      omega
    | retyped field member type =>
      obtain ⟨seen, hseen, htakes⟩ := (laid.lawful.collected hcollect field).taken _ member
      exact absurd (takes_of_fields htakes) (type seen hseen)

end Parameters

section Requests

variable {params whole : Value}

/-- A request with these parameters: as an object with the method and the parameters in either order
among unknown members, or as the array of both. -/
inductive Carries (params : Value) : Value → Prop where
  | object {members extras : List (String × Value)}
      (order : members.Perm (("method", .string "Upgrade") :: ("params", params) :: extras))
      (unknown : ∀ member ∈ extras, Tag.ofName? member.1 = none) : Carries params (.object members)
  | array : Carries params (.array [.string "Upgrade", params])

/-- Two members that matter stand in one of the two orders among those that do not. -/
theorem exists_of_perm_pair {β : Type} {p : β → Bool} {x y : β} {all extras : List β}
    (hperm : all.Perm (x :: y :: extras)) (hx : p x = true) (hy : p y = true)
    (hextras : ∀ z ∈ extras, p z = false) :
    ∃ first second before middle after, (first = x ∧ second = y ∨ first = y ∧ second = x) ∧
      all = before ++ first :: (middle ++ second :: after) ∧ (∀ z ∈ before, p z = false) ∧
      (∀ z ∈ middle, p z = false) ∧ ∀ z ∈ after, p z = false := by
  have hnone : extras.filter p = [] := List.filter_eq_nil_iff.mpr (by simpa using hextras)
  -- what the filter keeps is the two in one order, and its cons equations locate them
  have hpair : (all.filter p).Perm [x, y] := by
    simpa [hx, hy, hnone] using hperm.filter p
  have horder : ∃ first second, (first = x ∧ second = y ∨ first = y ∧ second = x) ∧
      all.filter p = [first, second] := by
    rcases List.perm_pair.mp hpair with hfilter | hfilter
    · exact ⟨x, y, .inl ⟨rfl, rfl⟩, hfilter⟩
    · exact ⟨y, x, .inr ⟨rfl, rfl⟩, hfilter⟩
  obtain ⟨first, second, hnames, hfilter⟩ := horder
  obtain ⟨before, rest, rfl, hbefore, -, hrest⟩ := List.filter_eq_cons_iff.mp hfilter
  obtain ⟨middle, after, rfl, hmiddle, -, hafter⟩ := List.filter_eq_cons_iff.mp hrest
  refine ⟨first, second, before, middle, after, hnames, rfl, ?_, ?_, ?_⟩
  · simpa using hbefore
  · simpa using hmiddle
  · simpa using List.filter_eq_nil_iff.mp hafter

/-- Members that do not matter are passed over. -/
theorem nextTag_append (first : Bool) {others : List (String × Value)}
    (hothers : ∀ member ∈ others, Tag.ofName? member.1 = none) (more : List (String × Value)) :
    nextTag first (memberTokens first (others ++ more)) =
      nextTag (first && others.isEmpty) (memberTokens (first && others.isEmpty) more) := by
  induction others generalizing first with
  | nil => rw [List.nil_append, List.isEmpty_nil, Bool.and_true]
  | cons member others ih =>
    obtain ⟨name, value⟩ := member
    obtain ⟨hname, hmore⟩ := List.forall_mem_cons.mp hothers
    calc nextTag first (memberTokens first ((name, value) :: others ++ more))
      _ = nextTag false (memberTokens false (others ++ more)) := by
          rw [List.cons_append, memberTokens, nextTag]
          -- the words begin with the name of a member, and its value can be passed over
          split
          all_goals
            rename_i hkey
            rw [nextKey_keyTokens] at hkey
            cases hkey
          simp only [hname]
          split
          all_goals
            rename_i hskip
            rw [skipMember_tokens] at hskip
            cases hskip
          rfl
      _ = _ := by rw [ih false hmore, List.isEmpty_cons, Bool.and_false, Bool.false_and]

/-- The next member that matters, behind others. -/
theorem nextTag_found (first : Bool) {others : List (String × Value)} {name : String} {tag : Tag}
    (hothers : ∀ member ∈ others, Tag.ofName? member.1 = none)
    (hname : Tag.ofName? name = some tag) (value : Value) (more : List (String × Value)) :
    nextTag first (memberTokens first (others ++ (name, value) :: more)) =
      .ok (some tag, .colon :: (value.tokens ++ memberTokens false more)) := by
  rw [nextTag_append first hothers]
  exact nextTag_keyTokens _ hname

theorem nextTag_none (first : Bool) {others : List (String × Value)}
    (hothers : ∀ member ∈ others, Tag.ofName? member.1 = none) :
    nextTag first (memberTokens first others) = .ok (none, []) := by
  have hall := nextTag_append first hothers []
  rw [List.append_nil] at hall
  rw [hall]
  exact nextTag_closeObject _

theorem finish_others (request : PushRequest) {others : List (String × Value)}
    (hothers : ∀ member ∈ others, Tag.ofName? member.1 = none) :
    finish request (memberTokens false others) = .ok (request, []) := by
  rw [finish, nextTag_none false hothers]
  rfl

/-- The elements of a request array, once the method was read. -/
theorem readPair_params (params : Value) (rest : List Token) :
    readPair (.string (some "Upgrade") :: .comma :: (params.tokens ++ rest)) = do
      let (request, rest) ← record.read (params.tokens ++ rest)
      return (request, ← expect .closeArray rest) := by
  have hfirst : nextElement true
      (.string (some "Upgrade") :: .comma :: (params.tokens ++ rest)) = .ok (true, _) := rfl
  have hname : seenFirst (.string (some "Upgrade") :: .comma :: (params.tokens ++ rest)) =
      .ok (.string "Upgrade") := rfl
  have hcheck : checkMethod "Upgrade" = .ok () := rfl
  have hnext : nextElement false (.comma :: (params.tokens ++ rest)) =
      .ok (true, params.tokens ++ rest) := nextElement_commaTokens false params rest
  simp only [readPair, hfirst, hname, Seen.asVariant, hcheck, List.drop_succ_cons, List.drop_zero,
    hnext, bind, Except.bind]

/-- A request decodes to what its parameters decode to, unless these are kept and too deep. -/
theorem Carries.read {result : Decoded PushRequest} (h : Carries params whole)
    (hparams : Decodes params result) :
    read whole.tokens = result.map (·, []) ∨
      params.fits keptDepth = false ∧ ∃ fault, read whole.tokens = .error fault := by
  have hmethod (rest : List Token) :
      readMethod ((Value.string "Upgrade").tokens ++ rest) = .ok rest := rfl
  have hcolon (rest : List Token) : expect .colon (.colon :: rest) = .ok rest := rfl
  have hmethodTag : Tag.ofName? "method" = some .method := rfl
  have hparamsTag : Tag.ofName? "params" = some .params := rfl
  cases h with
  | array =>
    left
    -- the method is read at once, so the parameters are read from their words
    show readPair (.string (some "Upgrade") :: .comma :: (params.tokens ++ [.closeArray])) = _
    rw [readPair_params, hparams.read]
    cases result <;> rfl
  | @object members extras order unknown =>
    obtain ⟨first, second, before, middle, after, horder, rfl, hbefore, hmiddle, hafter⟩ :=
      exists_of_perm_pair (p := fun member => (Tag.ofName? member.1).isSome) order rfl rfl
        (by simpa using unknown)
    simp only [Option.isSome_eq_false_iff, Option.isNone_iff_eq_none] at hbefore hmiddle hafter
    have hread (members : List (String × Value)) : PushRequest.read (Value.object members).tokens =
        readTagged (memberTokens true members) := rfl
    rw [hread]
    rcases horder with ⟨rfl, rfl⟩ | ⟨rfl, rfl⟩
    · -- the method comes first, and the parameters are read from their words
      left
      have hfirst := nextTag_found true hbefore hmethodTag (.string "Upgrade")
        (middle ++ ("params", params) :: after)
      have hsecond := nextTag_found false hmiddle hparamsTag params after
      simp only [readTagged, hfirst, hcolon, hmethod, hsecond, hparams.read, bind, Except.bind]
      cases result with
      | error fault => rfl
      | ok request => exact finish_others request hafter
    · -- the parameters come first, and are kept until the method is found
      have hfirst := nextTag_found true hbefore hparamsTag params
        (middle ++ ("method", .string "Upgrade") :: after)
      have hsecond := nextTag_found false hmiddle hmethodTag (.string "Upgrade") after
      cases hfits : params.fits keptDepth with
      | false =>
        right
        refine ⟨rfl, .malformed, ?_⟩
        simp only [readTagged, hfirst, hcolon, Value.read_tokens, hfits, bind, Except.bind]
        rfl
      | true =>
        left
        simp only [readTagged, hfirst, hcolon, Value.read_tokens, hfits, if_true, hsecond, hmethod,
          hparams.kept hfits, bind, Except.bind]
        cases result with
        | error fault => rfl
        | ok request => exact finish_others request hafter

/-- However a request is written, it is decoded as what it says; and where a field is missing, given
twice or of another type, nothing is. -/
theorem ofLine_forms :
    (∀ (request : PushRequest) (params whole : Value) (text : String), request.Gives params →
      Carries params whole → whole.Text text → ofLine text = .ok request) ∧
    ∀ (params whole : Value) (text : String), Faulty params → Carries params whole →
      whole.Text text → ∃ fault, ofLine text = .error fault := by
  constructor
  · intro request params whole text hgives hcarries htext
    have hread : read whole.tokens = .ok (request, []) := by
      apply (hcarries.read hgives.decodes).resolve_right
      rw [hgives.fits]
      exact fun hdeep => Bool.false_ne_true hdeep.1.symm
    rw [ofLine, decodeWhole, htext.lex_eq, hread]
  · intro params whole text hfaulty hcarries htext
    obtain ⟨fault, hdecodes⟩ := hfaulty.decodes
    have hread : ∃ fault, read whole.tokens = .error fault := by
      rcases hcarries.read hdecodes with hread | ⟨-, hread⟩
      · exact ⟨fault, hread⟩
      · exact hread
    obtain ⟨fault, hread⟩ := hread
    refine ⟨fault, ?_⟩
    rw [ofLine, decodeWhole, htext.lex_eq, hread]

/-- Parameters from the last field to the first, behind a member that is not known. -/
def backwardParams : List (String × Value) := [
  ("note", .null), ("control_plane", .bool true), ("os_image_url", .string "😀"),
  ("os_version", .string ""), ("kube_version", .string "v1")]

/-- A request that gives its parameters first, and one character of them as a surrogate pair. -/
def backwardLine : String :=
  "\x7b\"params\":\x7b\"note\":null,\"control_plane\":true,\"os_image_url\":\"\\ud83d\\uDE00\"," ++
    "\"os_version\":\"\",\"kube_version\":\"v1\"\x7d,\"method\":\"Upgrade\"\x7d"

theorem text_backwardLine :
    (Value.object [("params", .object backwardParams), ("method", .string "Upgrade")]).Text
      backwardLine := by
  have hhigh : Hex4 0xD83D ['d', '8', '3', 'd'] :=
    .mk (a := 13) (b := 8) (c := 3) (d := 13) (.lower (by decide)) (.lower (by decide))
      (.lower (by decide)) (.lower (by decide))
  have hlow : Hex4 0xDE00 ['D', 'E', '0', '0'] :=
    .mk (a := 13) (b := 14) (c := 0) (d := 0) (.upper (by decide)) (.upper (by decide))
      (.lower (by decide)) (.lower (by decide))
  have hpair : Spelling '😀' _ := .surrogates hhigh hlow (by decide) (by decide) (by decide)
  have himage : StringText "😀" _ := .mk (.cons hpair .nil)
  have hnull : Word ['n', 'u', 'l', 'l'] .null := .fixed (by simp [fixedWords])
  have hparams : List.Forall₂ UttersMember _ backwardParams :=
    .cons ⟨_, rfl, .word hnull⟩ <| .cons ⟨_, rfl, .bool true⟩ <|
    .cons ⟨_, rfl, .word (.string himage)⟩ <| .cons ⟨_, rfl, .string ""⟩ <|
    .cons ⟨_, rfl, .string "v1"⟩ .nil
  have hwhole : List.Forall₂ UttersMember _
      [("params", .object backwardParams), ("method", .string "Upgrade")] :=
    .cons ⟨_, rfl, .object hparams⟩ <| .cons ⟨_, rfl, .string "Upgrade"⟩ .nil
  have hline : backwardLine = String.ofList (writeObject [
      writeMember "params" <| writeObject [
        writeMember "note" ['n', 'u', 'l', 'l'], writeMember "control_plane" (writeBool true),
        writeMember "os_image_url"
          ['"', '\\', 'u', 'd', '8', '3', 'd', '\\', 'u', 'D', 'E', '0', '0', '"'],
        writeMember "os_version" (writeString ""), writeMember "kube_version" (writeString "v1")],
      writeMember "method" (writeString "Upgrade")]) := by decide +kernel
  rw [hline]
  exact (Utters.object hwhole).text_ofList

/-- The same request without one of its fields. -/
theorem ofLine_forms_backward :
    ofLine backwardLine = .ok ⟨"v1", "", "😀", true⟩ ∧
      ∃ fault, ofLine "\x7b\"method\":\"Upgrade\",\"params\":\x7b\x7d\x7d" = .error fault := by
  have horder : backwardParams.Perm (members ⟨"v1", "", "😀", true⟩ ++ [("note", .null)]) :=
    List.reverse_perm (members ⟨"v1", "", "😀", true⟩ ++ [("note", Value.null)])
  have hparams := Gives.object horder (by simp [record]) (by simp [Value.fits])
  have hempty : Faulty (.object []) :=
    .missing (by decide : "os_version" ∈ record.fields) List.not_mem_nil
  have htext : (Value.object [("method", .string "Upgrade"), ("params", .object [])]).Text
      "\x7b\"method\":\"Upgrade\",\"params\":\x7b\x7d\x7d" := by
    have hwhole : List.Forall₂ UttersMember
        [writeMember "method" (writeString "Upgrade"), writeMember "params" (writeObject [])]
        [("method", .string "Upgrade"), ("params", .object [])] :=
      .cons ⟨_, rfl, .string "Upgrade"⟩ <| .cons ⟨_, rfl, .object .nil⟩ .nil
    exact (Utters.object hwhole).text_ofList
  constructor
  · exact ofLine_forms.1 _ _ _ _ hparams (.object (.swap _ _ []) (by simp)) text_backwardLine
  · exact ofLine_forms.2 _ _ _ hempty (.object (List.Perm.refl (_ :: _ :: [])) (by simp)) htext

end Requests

end NodeRollout.PushRequest
