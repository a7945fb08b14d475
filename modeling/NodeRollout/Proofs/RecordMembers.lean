import Mathlib.Data.List.Nodup
import NodeRollout.Proofs.RecordFields
import NodeRollout.Proofs.ValueWords

/-! Records decoded from the words of a value. What an object makes of a record is told by its
members alone, whether they are read from the words or were kept before; a record whose members are
given once each is found whatever stands between them and in whatever order they come. -/
namespace NodeRollout.Json.Record

variable {σ α : Type}

/-- The members of an object put into a draft one after another. -/
def collect (record : Record σ α) (draft : σ) : List (String × Value) → Decoded σ
  | [] => .ok draft
  | (name, value) :: rest =>
    match record.slot draft name with
    | .unknown => record.collect draft rest
    | .filled => .error (.duplicateField name)
    | .free fill =>
      match value.seen >>= fill with
      | .error fault => .error fault
      | .ok draft => record.collect draft rest

/-- What the members of an object decode to. -/
def ofMembers (record : Record σ α) (members : List (String × Value)) : Decoded α :=
  record.collect record.blank members >>= record.ofObject

variable {record : Record σ α} {takes : String → Seen → Prop} {draft next filled : σ}
  {name : String} {value : Value} {seen : Seen} {members : List (String × Value)}
  {rest : List Token}

theorem bind_eq_ok {β γ : Type} {x : Decoded β} {f : β → Decoded γ} {c : γ} :
    (x >>= f) = .ok c ↔ ∃ b, x = .ok b ∧ f b = .ok c := by
  cases x with
  | error fault => simp [bind, Except.bind]
  | ok b => simp [bind, Except.bind]

theorem Fills.collect_cons (h : record.Fills draft name seen next) (hseen : value.seen = .ok seen) :
    record.collect draft ((name, value) :: members) = record.collect next members := by
  obtain ⟨fill, hslot, hfill⟩ := h
  rw [collect, hslot]
  have hbind : value.seen >>= fill = .ok next := bind_eq_ok.mpr ⟨seen, hseen, hfill⟩
  simp only [hbind]

/-- A value that fills a field is one word. -/
theorem Lawful.tokens_of_fills (h : record.Lawful takes)
    (hfills : record.Fills draft name seen next) (hseen : value.seen = .ok seen) :
    ∃ token, value.tokens = [token] ∧ token.seen = .ok seen := by
  obtain ⟨hsequence, hmap⟩ := h.scalar (h.takes_of_fills hfills)
  obtain ⟨token, more, htokens, htoken, -, hone⟩ := value.tokens_eq_cons
  rw [hseen] at htoken hone
  have hmore : more = [] :=
    hone (fun heq => hsequence (Except.ok.inj heq)) (fun heq => hmap (Except.ok.inj heq))
  exact ⟨token, hmore ▸ htokens, htoken⟩

section Objects

/-- The members of an object, read from its words. -/
theorem Lawful.readMembers_tokens (h : record.Lawful takes) (draft : σ) (first : Bool)
    (members : List (String × Value)) (rest : List Token) :
    record.readMembers draft first (memberTokens first members ++ rest) =
      (record.collect draft members).map (·, rest) := by
  induction members generalizing draft first with
  | nil => exact readMembers_closeObject first
  | cons member members ih =>
    obtain ⟨name, value⟩ := member
    obtain ⟨token, more, htokens, htoken, -⟩ := value.tokens_eq_cons
    have hskip := skip_tokens value (memberTokens false members ++ rest)
    rw [memberTokens, List.append_assoc, List.cons_append, List.append_assoc, htokens,
      List.cons_append, readMembers_keyTokens, collect]
    cases hslot : record.slot draft name with
    | filled => rfl
    | unknown =>
      rw [htokens, List.cons_append] at hskip
      simp only [hskip]
      exact ih draft false
    | free fill =>
      dsimp only
      rw [htoken]
      cases hnext : value.seen >>= fill with
      | error fault => rfl
      | ok next =>
        -- what fills a field is no container, so nothing of it is left
        obtain ⟨seen, hseen, hfill⟩ := bind_eq_ok.mp hnext
        obtain ⟨_, hword, -⟩ := h.tokens_of_fills ⟨fill, hslot, hfill⟩ hseen
        rw [htokens] at hword
        obtain ⟨-, rfl⟩ := List.cons.inj hword
        exact ih next false

theorem Lawful.read_object (h : record.Lawful takes) (members : List (String × Value))
    (rest : List Token) :
    record.read ((Value.object members).tokens ++ rest) =
      (record.ofMembers members).map (·, rest) := by
  rw [Value.tokens, List.cons_append, Record.read, h.readMembers_tokens, ofMembers]
  cases record.collect record.blank members with
  | error fault => rfl
  | ok draft =>
    show (do return (← record.ofObject draft, rest)) = (record.ofObject draft).map (·, rest)
    cases record.ofObject draft <;> rfl

/-- Members kept before make of a draft what the words of them do, as long as all can be read. -/
theorem fillMembers_eq_collect (draft : σ)
    (hreadable : ∀ member ∈ members, ∃ seen, member.2.seen = .ok seen) :
    record.fillMembers draft members = record.collect draft members := by
  induction members generalizing draft with
  | nil => rfl
  | cons member members ih =>
    obtain ⟨name, value⟩ := member
    obtain ⟨⟨seen, hseen⟩, hmore⟩ := List.forall_mem_cons.mp hreadable
    dsimp only at hseen
    have hstep : record.fillMembers draft ((name, value) :: members) =
        record.fill draft name seen >>= fun next => record.fillMembers next members := by
      rw [fillMembers, hseen]
      rfl
    rw [hstep, fill, collect]
    cases record.slot draft name with
    | filled => rfl
    | unknown => exact ih draft hmore
    | free fill =>
      rw [hseen]
      show (fill seen >>= fun next => record.fillMembers next members) = match fill seen with
        | .error fault => .error fault
        | .ok next => record.collect next members
      cases fill seen with
      | error fault => rfl
      | ok next => exact ih next hmore

theorem readable_of_fits {room : Nat} (h : value.fits room = true) :
    ∃ seen, value.seen = .ok seen := by
  cases value with
  | unreadable => cases h
  | null | bool _ | number _ | string _ | array _ | object _ => exact ⟨_, rfl⟩

theorem membersFit_iff {room : Nat} :
    Value.membersFit room members = true ↔ ∀ member ∈ members, member.2.fits room = true := by
  induction members with
  | nil => simp [Value.membersFit]
  | cons member members ih =>
    obtain ⟨name, value⟩ := member
    simp [Value.membersFit, ih]

theorem ofValue_object {room : Nat} (hfits : (Value.object members).fits room = true) :
    record.ofValue (.object members) = record.ofMembers members := by
  have hmembers : Value.membersFit (room - 1) members = true := (Bool.and_eq_true_iff.mp hfits).2
  have hreadable : ∀ member ∈ members, ∃ seen, member.2.seen = .ok seen :=
    fun member hmember => readable_of_fits (membersFit_iff.mp hmembers member hmember)
  rw [ofValue, fillMembers_eq_collect _ hreadable, ofMembers]

end Objects

section Faults

/-- What a draft tells of one field once all members were put into it. -/
structure Collected (record : Record σ α) (takes : String → Seen → Prop) (draft filled : σ)
    (members : List (String × Value)) (name : String) : Prop where
  filled_iff : record.Filled filled name ↔ record.Filled draft name ∨ name ∈ members.map Prod.fst
  fresh : record.Filled draft name → name ∉ members.map Prod.fst
  once : (members.map Prod.fst).count name ≤ 1
  taken : ∀ value, (name, value) ∈ members → ∃ seen, value.seen = .ok seen ∧ takes name seen

namespace Collected

theorem nil (draft : σ) (name : String) : record.Collected takes draft draft [] name where
  filled_iff := by simp
  fresh := by simp
  once := by simp
  taken := by simp

/-- A member that leaves the field as it is. -/
theorem other {other : String} (h : record.Collected takes next filled members name)
    (hother : name ≠ other) (hsame : record.Filled next name ↔ record.Filled draft name)
    (value : Value) : record.Collected takes draft filled ((other, value) :: members) name where
  filled_iff := by simpa [hother, hsame] using h.filled_iff
  fresh := by simpa [hother, hsame] using h.fresh
  once := by simpa [Ne.symm hother] using h.once
  taken := by simpa [hother] using h.taken

/-- The member that fills the field; no later one can. -/
theorem own (h : record.Collected takes next filled members name)
    (hfree : ¬ record.Filled draft name) (hfull : record.Filled next name)
    (hseen : value.seen = .ok seen) (htakes : takes name seen) :
    record.Collected takes draft filled ((name, value) :: members) name where
  filled_iff := by simp [h.filled_iff.mpr (.inl hfull)]
  fresh hdraft := absurd hdraft hfree
  once := by
    have hgone : name ∉ members.map Prod.fst := h.fresh hfull
    rw [List.map_cons, List.count_cons_self, List.count_eq_zero.mpr hgone]
  taken value' hvalue' := by
    rcases List.mem_cons.mp hvalue' with heq | hmember
    · obtain ⟨-, rfl⟩ := Prod.mk.inj heq
      exact ⟨seen, hseen, htakes⟩
    · exact h.taken value' hmember

end Collected

/-- Where all members were put into a draft, each field was given at most once, and a value of its
type. -/
theorem Lawful.collected (h : record.Lawful takes)
    (hok : record.collect draft members = .ok filled) (hname : name ∈ record.fields) :
    record.Collected takes draft filled members name := by
  induction members generalizing draft with
  | nil =>
    obtain rfl := Except.ok.inj hok
    exact .nil draft name
  | cons member members ih =>
    obtain ⟨other, value⟩ := member
    rw [collect] at hok
    cases hslot : record.slot draft other with
    | filled => simp [hslot] at hok
    | unknown =>
      simp only [hslot] at hok
      have hother : name ≠ other := by
        intro heq
        exact (h.unknown_iff draft name).mp (heq ▸ hslot) hname
      exact (ih hok).other hother Iff.rfl value
    | free fill =>
      simp only [hslot] at hok
      cases hnext : value.seen >>= fill with
      | error fault => simp [hnext] at hok
      | ok next =>
        simp only [hnext] at hok
        obtain ⟨seen, hseen, hfill⟩ := bind_eq_ok.mp hnext
        have hfills : record.Fills draft other seen next := ⟨fill, hslot, hfill⟩
        have hmarks := h.filled_of_fills hfills name
        by_cases hother : name = other
        · subst hother
          have hfree : ¬ record.Filled draft name := by simp [Filled, hslot]
          exact (ih hok).own hfree (hmarks.mpr (.inl rfl)) hseen (h.takes_of_fills hfills)
        · have hsame : record.Filled next name ↔ record.Filled draft name := by
            simpa [hother] using hmarks
          exact (ih hok).other hother hsame value

end Faults

section Families

/-- The drafts of one value, told by which of its fields have been found. -/
structure Family (record : Record σ α) (fields : List (String × Value)) where
  draft : (String → Bool) → σ
  names : fields.map Prod.fst = record.fields
  distinct : record.fields.Nodup
  blank : draft (fun _ => false) = record.blank
  congr : ∀ {found found' : String → Bool}, (∀ name ∈ record.fields, found name = found' name) →
    draft found = draft found'
  fills : ∀ {found : String → Bool} {name value}, (name, value) ∈ fields → found name = false →
    ∃ seen, value.seen = .ok seen ∧
      record.Fills (draft found) name seen (draft fun other => found other || other == name)

variable {fields : List (String × Value)}

/-- Members of the value, each given once among unknown ones, are all found. -/
theorem Family.collect_eq (family : record.Family fields) (h : record.Lawful takes)
    {found found' : String → Bool}
    (hmembers : ∀ member ∈ members, member ∈ fields ∨ member.1 ∉ record.fields)
    (hcount : ∀ name ∈ record.fields,
      (members.map Prod.fst).count name + (found name).toNat = (found' name).toNat) :
    record.collect (family.draft found) members = .ok (family.draft found') := by
  induction members generalizing found with
  | nil =>
    have hsame : ∀ name ∈ record.fields, found name = found' name := by
      intro name hname
      have heq := hcount name hname
      cases hfound : found name <;> cases hfound' : found' name <;> simp_all
    rw [collect, family.congr hsame]
  | cons member members ih =>
    obtain ⟨name, value⟩ := member
    obtain ⟨hfirst, hmore⟩ := List.forall_mem_cons.mp hmembers
    by_cases hknown : name ∈ record.fields
    · have hone := hcount name hknown
      rw [List.map_cons, List.count_cons_self] at hone
      -- no field is counted twice, so this one was not found before
      have hfree : found name = false := by
        have hmost := Bool.toNat_le (found' name)
        apply Bool.toNat_eq_zero.mp
        omega
      obtain ⟨seen, hseen, hfills⟩ :=
        family.fills (hfirst.resolve_right (not_not_intro hknown)) hfree
      rw [hfills.collect_cons hseen]
      apply ih hmore
      intro other hother
      have hrest := hcount other hother
      rw [List.map_cons] at hrest
      by_cases heq : other = name
      · subst heq
        rw [List.count_cons_self, hfree] at hrest
        simpa using hrest
      · rw [List.count_cons_of_ne (Ne.symm heq)] at hrest
        rwa [beq_false_of_ne heq, Bool.or_false]
    · rw [collect, (h.unknown_iff _ name).mpr hknown]
      apply ih hmore
      intro other hother
      have hne : name ≠ other := fun heq => hknown (heq ▸ hother)
      have hrest := hcount other hother
      rwa [List.map_cons, List.count_cons_of_ne hne] at hrest

/-- Of the members of the value, those with these names give each of them once. -/
theorem Family.count_filter (family : record.Family fields) (keys : String → Bool)
    (hname : name ∈ record.fields) :
    ((fields.filter fun member => keys member.1).map Prod.fst).count name = (keys name).toNat := by
  have hnames : (fields.filter fun member => keys member.1).map Prod.fst =
      record.fields.filter keys := by
    rw [← family.names, List.filter_map]
    rfl
  rw [hnames]
  cases hkey : keys name with
  | true =>
    rw [List.count_filter hkey]
    exact List.count_eq_one_of_mem family.distinct hname
  | false =>
    apply List.count_eq_zero.mpr
    simp [hkey]

theorem count_unknown (hname : name ∈ record.fields)
    (hunknown : ∀ member ∈ members, member.1 ∉ record.fields) :
    (members.map Prod.fst).count name = 0 := by
  apply List.count_eq_zero.mpr
  intro hgiven
  obtain ⟨member, hmember, rfl⟩ := List.mem_map.mp hgiven
  exact hunknown member hmember hname

/-- The members of the value with these names, in any order among unknown ones. -/
theorem Family.ofMembers_perm (family : record.Family fields) (h : record.Lawful takes)
    (keys : String → Bool) {extras : List (String × Value)}
    (hperm : members.Perm (fields.filter (fun member => keys member.1) ++ extras))
    (hextras : ∀ member ∈ extras, member.1 ∉ record.fields) :
    record.ofMembers members = record.ofObject (family.draft keys) := by
  have hcollect : record.collect (family.draft fun _ => false) members =
      .ok (family.draft keys) := by
    apply family.collect_eq h
    · intro member hmember
      rcases List.mem_append.mp (hperm.mem_iff.mp hmember) with hkept | hextra
      · exact .inl (List.mem_of_mem_filter hkept)
      · exact .inr (hextras member hextra)
    · intro name hname
      rw [(hperm.map Prod.fst).count_eq, List.map_append, List.count_append,
        family.count_filter keys hname, count_unknown hname hextras]
      rfl
  rw [ofMembers, ← family.blank, hcollect]
  rfl

section Arrays

variable {given left : List (String × Value)}

/-- An element that fills its field. -/
theorem Lawful.readElements_cons (h : record.Lawful takes)
    (hfills : record.Fills draft name seen next) (hseen : value.seen = .ok seen) (count : Nat)
    (names : List String) (rest : List Token) :
    record.readElements draft count (name :: names)
        (commaTokens (count == 0) ++ (value.tokens ++ rest)) =
      record.readElements next (count + 1) names rest := by
  obtain ⟨token, htokens, htoken⟩ := h.tokens_of_fills hfills hseen
  rw [readElements, nextElement_commaTokens, htokens]
  show (do
    let seen ← token.seen
    let next ← record.fill draft name seen
    record.readElements next (count + 1) names rest) = _
  rw [htoken]
  show (record.fill draft name seen >>= fun next =>
    record.readElements next (count + 1) names rest) = _
  rw [hfills.fill_eq]
  rfl

theorem Fills.fillElements_cons (hfills : record.Fills draft name seen next)
    (hseen : value.seen = .ok seen) (names : List String) (values : List Value) :
    record.fillElements draft (name :: names) (value :: values) =
      record.fillElements next names values := by
  rw [fillElements, hseen]
  show (record.fill draft name seen >>= fun next => record.fillElements next names values) = _
  rw [hfills.fill_eq]
  rfl

theorem later_free {found : String → Bool} {names : List String} (hname : name ∉ names)
    (hfree : ∀ other ∈ names, found other = false) :
    ∀ other ∈ names, (found other || other == name) = false := by
  intro other hother
  have hne : other ≠ name := fun heq => hname (heq ▸ hother)
  rw [hfree other hother, beq_false_of_ne hne, Bool.or_false]

/-- The fields in their order up to some place, as the elements of an array. -/
theorem Family.readElements_eq (family : record.Family fields) (h : record.Lawful takes)
    (left : List (String × Value)) (found : String → Bool) (count : Nat)
    (hfields : ∀ member ∈ given, member ∈ fields) (hdistinct : (given.map Prod.fst).Nodup)
    (hfree : ∀ name ∈ given.map Prod.fst, found name = false) (rest : List Token) :
    record.readElements (family.draft found) count ((given ++ left).map Prod.fst)
        (elementTokens (count == 0) (given.map Prod.snd) ++ rest) =
      (record.ofArray (family.draft fun name => found name || (given.map Prod.fst).contains name)
        (count + given.length)).map (·, rest) := by
  induction given generalizing found count with
  | nil =>
    simp only [List.map_nil, List.contains_nil, Bool.or_false, List.length_nil, Nat.add_zero]
    -- the array ends here, whether or not fields are left
    have hend : record.readElements (family.draft found) count (List.map Prod.fst left)
        (.closeArray :: rest) = do return (← record.ofArray (family.draft found) count, rest) := by
      cases left <;> rfl
    apply hend.trans
    cases record.ofArray (family.draft found) count <;> rfl
  | cons member given ih =>
    obtain ⟨name, value⟩ := member
    obtain ⟨hfield, hmore⟩ := List.forall_mem_cons.mp hfields
    obtain ⟨hname, hdistinct⟩ := List.nodup_cons.mp hdistinct
    obtain ⟨hfirst, hfree⟩ := List.forall_mem_cons.mp hfree
    obtain ⟨seen, hseen, hfills⟩ := family.fills hfield hfirst
    have hstep := h.readElements_cons hfills hseen count ((given ++ left).map Prod.fst)
      (elementTokens false (given.map Prod.snd) ++ rest)
    rw [List.cons_append, List.map_cons, List.map_cons, elementTokens, List.append_assoc,
      List.append_assoc, hstep]
    apply (ih _ (count + 1) hmore hdistinct (later_free hname hfree)).trans
    simp only [List.map_cons, List.contains_cons, Bool.or_assoc, List.length_cons]
    rw [Nat.add_assoc, Nat.add_comm 1]

/-- The same for elements that were kept before; none is left over. -/
theorem Family.fillElements_eq (family : record.Family fields)
    (left : List (String × Value)) (found : String → Bool)
    (hfields : ∀ member ∈ given, member ∈ fields) (hdistinct : (given.map Prod.fst).Nodup)
    (hfree : ∀ name ∈ given.map Prod.fst, found name = false) :
    record.fillElements (family.draft found) ((given ++ left).map Prod.fst)
        (given.map Prod.snd) =
      .ok (family.draft fun name => found name || (given.map Prod.fst).contains name, 0) := by
  induction given generalizing found with
  | nil =>
    simp only [List.map_nil, List.contains_nil, Bool.or_false]
    cases left <;> rfl
  | cons member given ih =>
    obtain ⟨name, value⟩ := member
    obtain ⟨hfield, hmore⟩ := List.forall_mem_cons.mp hfields
    obtain ⟨hname, hdistinct⟩ := List.nodup_cons.mp hdistinct
    obtain ⟨hfirst, hfree⟩ := List.forall_mem_cons.mp hfree
    obtain ⟨seen, hseen, hfills⟩ := family.fills hfield hfirst
    rw [List.cons_append, List.map_cons, List.map_cons, hfills.fillElements_cons hseen]
    apply (ih _ hmore hdistinct (later_free hname hfree)).trans
    simp only [List.map_cons, List.contains_cons, Bool.or_assoc]

theorem Family.distinct_prefix (family : record.Family fields) (hsplit : given ++ left = fields) :
    (given.map Prod.fst).Nodup := by
  have hall : ((given ++ left).map Prod.fst).Nodup := by
    rw [hsplit, family.names]
    exact family.distinct
  rw [List.map_append] at hall
  exact hall.of_append_left

theorem Family.read_array (family : record.Family fields) (h : record.Lawful takes)
    (hsplit : given ++ left = fields) (rest : List Token) :
    record.read ((Value.array (given.map Prod.snd)).tokens ++ rest) =
      (record.ofArray (family.draft fun name => (given.map Prod.fst).contains name)
        given.length).map (·, rest) := by
  have hall := family.readElements_eq h left (fun _ => false) 0
    (fun member hmember => hsplit ▸ List.mem_append_left left hmember)
    (family.distinct_prefix hsplit) (fun _ _ => rfl) rest
  rw [family.blank, hsplit, family.names] at hall
  simp only [Bool.false_or, Nat.zero_add] at hall
  exact hall

theorem Family.ofValue_array (family : record.Family fields) (hsplit : given ++ left = fields) :
    record.ofValue (.array (given.map Prod.snd)) =
      record.ofArray (family.draft fun name => (given.map Prod.fst).contains name)
        given.length := by
  have hall := family.fillElements_eq left (fun _ => false)
    (fun member hmember => hsplit ▸ List.mem_append_left left hmember)
    (family.distinct_prefix hsplit) (fun _ _ => rfl)
  rw [family.blank, hsplit, family.names] at hall
  simp only [Bool.false_or] at hall
  rw [ofValue, hall, List.length_map]
  show (do
    let result ← record.ofArray (family.draft fun name => (given.map Prod.fst).contains name)
      given.length
    if 0 = 0 then return result else _) = _
  cases record.ofArray (family.draft fun name => (given.map Prod.fst).contains name)
    given.length <;> rfl

end Arrays

end Families

end NodeRollout.Json.Record
