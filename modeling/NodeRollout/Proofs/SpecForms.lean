import NodeRollout.Json.SpecForm
import NodeRollout.Proofs.RecordMembers

/-! The forms of a spec. A spec comes back from its text; of an object some fields may be left out
and have their defaults, whatever the order of the others and whatever unknown members stand among
them, and of an array the last ones. The limit is an integer of 64 bits with sign and nothing else. -/
namespace NodeRollout.Spec

open Json

section Fields

def fields : List (Record.Field Draft) := [
  ⟨"osVersion", String, Seen.asString, (·.osVersion), fun d v => { d with osVersion := v }⟩,
  ⟨"osImageUrl", String, Seen.asString, (·.osImageUrl), fun d v => { d with osImageUrl := v }⟩,
  ⟨"kubeVersion", String, Seen.asString, (·.kubeVersion), fun d v => { d with kubeVersion := v }⟩,
  ⟨"evictPodForce", Bool, Seen.asBool, (·.evictPodForce),
    fun d v => { d with evictPodForce := v }⟩,
  ⟨"maxUnavailable", Int64, Seen.asInt64, (·.maxUnavailable),
    fun d v => { d with maxUnavailable := v }⟩]

theorem laid : record.Laid fields where
  names := rfl
  slot draft := by simp [fields, record, Draft.slot]
  unknown draft name hname := by
    show draft.slot name = .unknown
    unfold Draft.slot
    split <;> simp_all [record]
  blank := by simp [fields, record]
  put := by simp [fields]
  scalar := by simp [fields, Seen.asString, Seen.asBool, Seen.asInt64]

/-- The limit is read as an integer of 64 bits with sign. -/
theorem asInt64_of_takes {seen : Seen} (h : Record.Takes fields "maxUnavailable" seen) :
    ∃ i, seen.asInt64 = .ok i := by
  obtain ⟨field, hfield, hname, v, hread⟩ := h
  simp only [fields, List.mem_cons, List.not_mem_nil, or_false] at hfield
  rcases hfield with rfl | rfl | rfl | rfl | rfl
  case inr.inr.inr.inr => exact ⟨v, hread⟩
  all_goals simp at hname

/-- The members of an object that holds the fields of the spec. -/
def members (spec : Spec) : List (String × Value) := [
  ("osVersion", .string spec.osVersion), ("osImageUrl", .string spec.osImageUrl),
  ("kubeVersion", .string spec.kubeVersion), ("evictPodForce", .bool spec.evictPodForce),
  ("maxUnavailable", .number (.ofInt spec.maxUnavailable.toInt))]

/-- The spec with its other fields at their defaults. -/
def keep (spec : Spec) (keys : String → Bool) : Spec where
  osVersion := if keys "osVersion" then spec.osVersion else ({} : Spec).osVersion
  osImageUrl := if keys "osImageUrl" then spec.osImageUrl else ({} : Spec).osImageUrl
  kubeVersion := if keys "kubeVersion" then spec.kubeVersion else ({} : Spec).kubeVersion
  evictPodForce := if keys "evictPodForce" then spec.evictPodForce else ({} : Spec).evictPodForce
  maxUnavailable :=
    if keys "maxUnavailable" then spec.maxUnavailable else ({} : Spec).maxUnavailable

/-- The drafts of a spec. -/
def family (spec : Spec) : record.Family spec.members where
  draft found := {
    osVersion := if found "osVersion" then some spec.osVersion else none
    osImageUrl := if found "osImageUrl" then some spec.osImageUrl else none
    kubeVersion := if found "kubeVersion" then some spec.kubeVersion else none
    evictPodForce := if found "evictPodForce" then some spec.evictPodForce else none
    maxUnavailable := if found "maxUnavailable" then some spec.maxUnavailable else none }
  names := rfl
  distinct := by simp [record]
  blank := by simp [record]
  congr h := by
    rw [h "osVersion" (by simp [record]), h "osImageUrl" (by simp [record]),
      h "kubeVersion" (by simp [record]), h "evictPodForce" (by simp [record]),
      h "maxUnavailable" (by simp [record])]
  fills hfield hfree := by
    simp only [members, List.mem_cons, Prod.mk.injEq, List.not_mem_nil, or_false] at hfield
    rcases hfield with ⟨rfl, rfl⟩ | ⟨rfl, rfl⟩ | ⟨rfl, rfl⟩ | ⟨rfl, rfl⟩ | ⟨rfl, rfl⟩
    case inr.inr.inr.inr =>
      exact ⟨_, rfl, .of_ofField rfl (by simp [hfree]) (Seen.asInt64_ofInt _) (by simp)⟩
    all_goals
      exact ⟨_, rfl, .of_ofField rfl (by simp [hfree]) rfl (by simp)⟩

theorem spec_family (spec : Spec) (keys : String → Bool) :
    (spec.family.draft keys).spec = spec.keep keys := by
  have hget {β : Type} (b : Bool) (v default : β) :
      (if b then some v else none).getD default = if b then v else default := by
    cases b <;> rfl
  simp only [family, Draft.spec, keep, hget]

end Fields

section Texts

variable {members : List (String × Value)} {text : String}

theorem ofJson_object (htext : (Value.object members).Text text) :
    ofJson text = record.ofMembers members := by
  have hread := laid.lawful.read_object members []
  rw [List.append_nil] at hread
  rw [ofJson, decodeWhole, htext.lex_eq, hread]
  cases record.ofMembers members <;> rfl

/-- What a text decodes to keeps each field at most once, and of its type. -/
theorem collected_of_ofJson {spec : Spec} {name : String} (htext : (Value.object members).Text text)
    (hok : ofJson text = .ok spec) (hname : name ∈ record.fields) :
    ∃ filled, record.Collected (Record.Takes fields) record.blank filled members name := by
  rw [ofJson_object htext] at hok
  obtain ⟨filled, hcollect, -⟩ := Record.bind_eq_ok.mp hok
  exact ⟨filled, laid.lawful.collected hcollect hname⟩

theorem ofJson_members (spec : Spec) (keys : String → Bool) {extras : List (String × Value)}
    (horder : members.Perm (spec.members.filter (fun member => keys member.1) ++ extras))
    (hunknown : ∀ member ∈ extras, member.1 ∉ record.fields)
    (htext : (Value.object members).Text text) : ofJson text = .ok (spec.keep keys) := by
  rw [ofJson_object htext, spec.family.ofMembers_perm laid.lawful keys horder hunknown,
    ← spec_family]
  rfl

theorem ofNumeral_ofInt (i : Int64) :
    Value.ofNumeral (.ofInt i.toInt) = .number (.ofInt i.toInt) := by
  rw [Value.ofNumeral, Numeral.number?_ofInt]
  rfl

theorem text_toJson (spec : Spec) : (Value.object spec.members).Text spec.toJson := by
  have hlimit : Utters (writeInt spec.maxUnavailable.toInt)
      (Value.number (.ofInt spec.maxUnavailable.toInt)).tokens :=
    ofNumeral_ofInt spec.maxUnavailable ▸ Utters.numeral (Numeral.written_ofInt _)
  have hmembers : List.Forall₂ UttersMember _ spec.members :=
    .cons ⟨_, rfl, .string spec.osVersion⟩ <| .cons ⟨_, rfl, .string spec.osImageUrl⟩ <|
    .cons ⟨_, rfl, .string spec.kubeVersion⟩ <| .cons ⟨_, rfl, .bool spec.evictPodForce⟩ <|
    .cons ⟨_, rfl, hlimit⟩ .nil
  exact (Utters.object hmembers).text_ofList

theorem ofJson_toJson (spec : Spec) : ofJson spec.toJson = .ok spec := by
  have hall : spec.members.Perm (spec.members.filter (fun _ => true) ++ []) := by
    rw [List.filter_true, List.append_nil]
  exact spec.ofJson_members (fun _ => true) hall (by simp) spec.text_toJson

theorem ofJson_array {spec : Spec} {n : Nat}
    (htext : (Value.array ((spec.members.take n).map Prod.snd)).Text text) :
    ofJson text = .ok (spec.keep fun name => (record.fields.take n).contains name) := by
  have hread := spec.family.read_array laid.lawful (List.take_append_drop n spec.members) []
  have hnames : (spec.members.take n).map Prod.fst = record.fields.take n := by
    rw [List.map_take, spec.family.names]
  rw [List.append_nil, hnames] at hread
  rw [ofJson, decodeWhole, htext.lex_eq, hread, ← spec_family]
  rfl

/-- Whatever of a spec is written, in whatever form, is what is decoded; a field given twice, and a
limit that is no integer of 64 bits with sign, are refused. -/
theorem ofJson_forms :
    (∀ spec : Spec, ofJson spec.toJson = .ok spec) ∧
    (∀ (spec : Spec) (keys : String → Bool) (extras members : List (String × Value)) (text : String),
      members.Perm (spec.members.filter (fun member => keys member.1) ++ extras) →
      (∀ member ∈ extras, member.1 ∉ record.fields) →
      (Value.object members).Text text → ofJson text = .ok (spec.keep keys)) ∧
    (∀ (spec : Spec) (n : Nat) (text : String),
      (Value.array ((spec.members.take n).map Prod.snd)).Text text →
      ofJson text = .ok (spec.keep fun name => (record.fields.take n).contains name)) ∧
    (∀ (members : List (String × Value)) (name text : String), name ∈ record.fields →
      2 ≤ (members.map Prod.fst).count name → (Value.object members).Text text →
      ∃ fault, ofJson text = .error fault) ∧
    ∀ (members : List (String × Value)) (n : Numeral) (text : String),
      ("maxUnavailable", Value.ofNumeral n) ∈ members → n.Foreign →
      (Value.object members).Text text → ∃ fault, ofJson text = .error fault := by
  refine ⟨ofJson_toJson, fun spec keys _ _ _ => spec.ofJson_members keys,
    fun _ _ _ => ofJson_array, ?_, ?_⟩
  · intro members name text hname htwice htext
    cases hresult : ofJson text with
    | error fault => exact ⟨fault, rfl⟩
    | ok spec =>
      obtain ⟨filled, hcollected⟩ := collected_of_ofJson htext hresult hname
      have honce := hcollected.once
      omega
  · intro members n text hmember hforeign htext
    cases hresult : ofJson text with
    | error fault => exact ⟨fault, rfl⟩
    | ok spec =>
      have hname : "maxUnavailable" ∈ record.fields := by simp [record]
      obtain ⟨filled, hcollected⟩ := collected_of_ofJson htext hresult hname
      obtain ⟨seen, hseen, htakes⟩ := hcollected.taken _ hmember
      obtain ⟨i, hi⟩ := asInt64_of_takes htakes
      -- a number too large for binary64 has no value at all, any other is of another kind
      cases hnumber : n.number? with
      | none =>
        rw [Value.ofNumeral, hnumber] at hseen
        cases hseen
      | some x =>
        rw [Value.ofNumeral, hnumber] at hseen
        obtain rfl := Except.ok.inj hseen
        obtain ⟨fault, hfault⟩ := Seen.asInt64_foreign hforeign hnumber
        rw [hfault] at hi
        cases hi

/-- A spec of which two fields are kept. -/
def sample : Spec := { osVersion := "40", kubeVersion := "v1", maxUnavailable := -2 }

theorem text_kept :
    (Value.object [("note", .null), ("maxUnavailable", .number (.ofInt sample.maxUnavailable.toInt)),
      ("kubeVersion", .string sample.kubeVersion)]).Text
      "\x7b\"note\":null,\"maxUnavailable\":-2,\"kubeVersion\":\"v1\"\x7d" := by
  have hnull : Word ['n', 'u', 'l', 'l'] .null := .fixed (by simp [fixedWords])
  have hlimit : Utters (writeInt sample.maxUnavailable.toInt)
      (Value.number (.ofInt sample.maxUnavailable.toInt)).tokens :=
    ofNumeral_ofInt sample.maxUnavailable ▸ Utters.numeral (Numeral.written_ofInt _)
  have hmembers : List.Forall₂ UttersMember _ [("note", Value.null),
      ("maxUnavailable", .number (.ofInt sample.maxUnavailable.toInt)),
      ("kubeVersion", .string sample.kubeVersion)] :=
    .cons ⟨_, rfl, .word hnull⟩ <| .cons ⟨_, rfl, hlimit⟩ <|
    .cons ⟨_, rfl, .string sample.kubeVersion⟩ .nil
  have htext := (Utters.object hmembers).text_ofList
  have hline : "\x7b\"note\":null,\"maxUnavailable\":-2,\"kubeVersion\":\"v1\"\x7d" =
      String.ofList (writeObject [writeMember "note" ['n', 'u', 'l', 'l'],
        writeMember "maxUnavailable" (writeInt sample.maxUnavailable.toInt),
        writeMember "kubeVersion" (writeString sample.kubeVersion)]) := by decide +kernel
  rw [hline]
  exact htext

/-- The numeral `1e3`. -/
def thousand : Numeral := ⟨false, ['1'], none, some (false, ['3'])⟩

theorem written_thousand : thousand.Written ['1', 'e', '3'] := by
  have hdigits : Numeral.Digits ['1'] ∧ Numeral.Digits ['3'] := by simp [Numeral.Digits]
  exact .mk ⟨hdigits.1, by simp [thousand], by simp [thousand], by simp [thousand, hdigits.2]⟩
    (.bare (.inl rfl))

theorem ofJson_forms_sample :
    ofJson "\x7b\"note\":null,\"maxUnavailable\":-2,\"kubeVersion\":\"v1\"\x7d" =
      .ok { kubeVersion := "v1", maxUnavailable := -2 } ∧
    ofJson "[\"40\"]" = .ok { osVersion := "40" } ∧
    (∃ fault, ofJson "\x7b\"osVersion\":\"\",\"osVersion\":\"\"\x7d" = .error fault) ∧
    ∃ fault, ofJson "\x7b\"maxUnavailable\":1e3\x7d" = .error fault := by
  obtain ⟨-, hobject, harray, htwice, hforeign⟩ := ofJson_forms
  refine ⟨?_, ?_, ?_, ?_⟩
  · have hkept : sample.members.filter
        (fun member => ["kubeVersion", "maxUnavailable"].contains member.1) =
          [("kubeVersion", .string sample.kubeVersion),
            ("maxUnavailable", .number (.ofInt sample.maxUnavailable.toInt))] := by
      simp [members]
    have horder := List.reverse_perm
      (sample.members.filter (fun member => ["kubeVersion", "maxUnavailable"].contains member.1) ++
        [("note", Value.null)])
    apply hobject sample (["kubeVersion", "maxUnavailable"].contains ·) _ _ _ horder
    · simp [record]
    · rw [hkept]
      exact text_kept
  · have hchars : "[\"40\"]".toList = '[' :: (writeString "40" ++ [']']) := by decide
    have hclose : Spells [']'] [.closeArray] := .mark (by simp [fixedWords]) .nil
    have hitem := Utters.string "40" [']'] _ (ends_cons (by decide) []) hclose
    apply harray sample 1
    rw [Value.Text, hchars]
    exact .mark (by simp [fixedWords]) hitem
  · have hmembers : List.Forall₂ UttersMember _
        [("osVersion", Value.string ""), ("osVersion", .string "")] :=
      .cons ⟨_, rfl, .string ""⟩ <| .cons ⟨_, rfl, .string ""⟩ .nil
    exact htwice _ "osVersion" _ (by simp [record]) (by simp) (Utters.object hmembers).text_ofList
  · have hmembers : List.Forall₂ UttersMember _ [("maxUnavailable", Value.ofNumeral thousand)] :=
      .cons ⟨_, rfl, .numeral written_thousand⟩ .nil
    exact hforeign _ thousand _ (by simp) (.inr (.inl rfl)) (Utters.object hmembers).text_ofList

end Texts

end NodeRollout.Spec
