import NodeRollout.Api.Server
import NodeRollout.Proofs.LegalText

/-! The addresses of requests for nodes. A name whose characters can stand in a path is found again
in the address that it was written to, and every name that nodes have is made of such characters. -/
namespace NodeRollout.Api

/-- A name that can stand in the address of a request. -/
structure Addressable (name : String) : Prop where
  nonempty : name.isEmpty = false
  legal : ∀ c ∈ name.toList, isPathChar c = true
  short : (nodesPath ++ "/" ++ name ++ "?&fieldManager=" ++ fieldManager).utf8ByteSize ≤ maxUriLength

variable {name uri : String} {path query : List Char}

theorem isPathChar_of_isAllowed {c : Char} (h : Label.isAllowed c = true) : isPathChar c = true := by
  have hcode := Label.toNat_of_isAllowed h
  simp only [isPathChar, Bool.or_eq_true, Bool.and_eq_true, decide_eq_true_eq, beq_iff_eq,
    bne_iff_ne]
  omega

/-- The names of cluster objects have at most 253 characters, of those that labels may have. -/
theorem Addressable.of_allowed (hne : name.isEmpty = false)
    (hlegal : ∀ c ∈ name.toList, Label.isAllowed c = true) (hlength : name.utf8ByteSize ≤ 253) :
    Addressable name where
  nonempty := hne
  legal c hc := isPathChar_of_isAllowed (hlegal c hc)
  short := by
    have hsizes : nodesPath.utf8ByteSize = 13 ∧ "/".utf8ByteSize = 1 ∧
        "?&fieldManager=".utf8ByteSize = 15 ∧ fieldManager.utf8ByteSize = 6 := by decide
    have hmax : maxUriLength = 65534 := rfl
    simp only [String.utf8ByteSize_append, hmax]
    omega

/-- The rest of an address behind its path: nothing, or a question mark and a query. -/
def IsQueryPart (query : List Char) : Prop :=
  query = [] ∨ ∃ rest, query = '?' :: rest ∧ ∀ c ∈ rest, isQueryChar c = true

theorem takeWhile_path (hpath : ∀ c ∈ path, isPathChar c = true) (hquery : IsQueryPart query) :
    (path ++ query).takeWhile (· != '?') = path := by
  have hmark : ∀ c ∈ path, (c != '?') = true := by
    intro c hc
    have hne : c ≠ '?' := by
      rintro rfl
      exact absurd (hpath _ hc) (by decide)
    exact bne_iff_ne.mpr hne
  rw [List.takeWhile_append_of_pos hmark]
  rcases hquery with rfl | ⟨rest, rfl, -⟩
  · exact List.append_nil path
  · exact List.append_nil path

theorem dropWhile_path (hpath : ∀ c ∈ path, isPathChar c = true) (hquery : IsQueryPart query) :
    (path ++ query).dropWhile (· != '?') = query := by
  have hsplit := List.takeWhile_append_dropWhile (p := (· != '?')) (l := path ++ query)
  rw [takeWhile_path hpath hquery] at hsplit
  exact List.append_cancel_left hsplit

theorem address?_eq (huri : uri.toList = path ++ query)
    (hpath : ∀ c ∈ path, isPathChar c = true) (hquery : IsQueryPart query)
    (hsize : uri.utf8ByteSize ≤ maxUriLength) : address? uri = some uri := by
  have hplain : ∀ c ∈ path ++ query, (c != '#') = true := by
    intro c hc
    have hne : c ≠ '#' := by
      rintro rfl
      rcases List.mem_append.mp hc with hc | hc
      · exact absurd (hpath _ hc) (by decide)
      · rcases hquery with rfl | ⟨rest, rfl, hrest⟩
        · cases hc
        · rcases List.mem_cons.mp hc with hc | hc
          · exact absurd hc (by decide)
          · exact absurd (hrest _ hc) (by decide)
    exact bne_iff_ne.mpr hne
  have hkept : uri.toList.takeWhile (· != '#') = path ++ query := by
    rw [huri, ← List.append_nil (path ++ query), List.takeWhile_append_of_pos hplain]
    rfl
  have hpath' : path.all isPathChar = true := List.all_eq_true.mpr hpath
  have hquery' : (query.drop 1).all isQueryChar = true := by
    rcases hquery with rfl | ⟨rest, rfl, hrest⟩
    · rfl
    · exact List.all_eq_true.mpr hrest
  simp only [address?, hkept, takeWhile_path hpath hquery, dropWhile_path hpath hquery, hpath',
    hquery', hsize, decide_true, Bool.and_self, if_true]
  rw [← huri, String.ofList_toList]

/-- The path of the address of a node. -/
def nodePath (name : String) : List Char := (nodesPath ++ "/").toList ++ name.toList

theorem Addressable.legal_path (h : Addressable name) : ∀ c ∈ nodePath name, isPathChar c = true := by
  have hnodes : ∀ c ∈ (nodesPath ++ "/").toList, isPathChar c = true :=
    List.all_eq_true.mp (by decide)
  exact List.forall_mem_append.mpr ⟨hnodes, h.legal⟩

theorem nodeName?_eq {request : Request} (huri : request.uri.toList = nodePath name ++ query)
    (h : Addressable name) (hquery : IsQueryPart query) : request.nodeName? = some name := by
  have hpath : request.uri.toList.takeWhile (· != '?') = nodePath name := by
    rw [huri]
    exact takeWhile_path h.legal_path hquery
  have hprefix : (nodesPath ++ "/").toList.isPrefixOf (nodePath name) = true :=
    List.isPrefixOf_iff_prefix.mpr (List.prefix_append ..)
  have hdrop : (nodePath name).drop (nodesPath.length + 1) = name.toList :=
    List.drop_left' (by decide)
  simp only [Request.nodeName?, hpath, hprefix, if_true, hdrop, String.ofList_toList]

theorem getNode_eq (h : Addressable name) :
    ∃ request, getNode name = .ok request ∧ request.method = .get ∧
      request.nodeName? = some name := by
  have huri : (nodesPath ++ "/" ++ name).toList = nodePath name ++ [] := by
    rw [String.toList_append, List.append_nil, nodePath]
  have hsize : (nodesPath ++ "/" ++ name).utf8ByteSize ≤ maxUriLength := by
    have hshort := h.short
    simp only [String.utf8ByteSize_append] at hshort ⊢
    omega
  refine ⟨⟨.get, nodesPath ++ "/" ++ name, none⟩, ?_, rfl, nodeName?_eq huri h (.inl rfl)⟩
  rw [getNode, address?_eq huri h.legal_path (.inl rfl) hsize]
  simp only [h.nonempty, Bool.false_eq_true, if_false]

theorem patchNode_eq {seen : Node} (h : Addressable seen.name) (changes : LabelChanges) :
    ∃ request, patchNode seen changes = .ok request ∧ request.method = .patch ∧
      request.nodeName? = some seen.name ∧ request.body = some (seen.labelPatch changes) := by
  have hquery : IsQueryPart ("?&fieldManager=" ++ fieldManager).toList :=
    .inr ⟨("&fieldManager=" ++ fieldManager).toList, by decide, List.all_eq_true.mp (by decide)⟩
  have huri : (nodesPath ++ "/" ++ seen.name ++ "?&fieldManager=" ++ fieldManager).toList =
      nodePath seen.name ++ ("?&fieldManager=" ++ fieldManager).toList := by
    simp only [nodePath, String.toList_append, List.append_assoc]
  refine ⟨⟨.patch, nodesPath ++ "/" ++ seen.name ++ "?&fieldManager=" ++ fieldManager,
    some (seen.labelPatch changes)⟩, ?_, rfl, nodeName?_eq huri h hquery, rfl⟩
  rw [patchNode, address?_eq huri h.legal_path hquery h.short]
  simp only [h.nonempty, Bool.false_eq_true, if_false]

theorem nodeName?_listNodes : listNodes.nodeName? = none := by decide

end NodeRollout.Api
