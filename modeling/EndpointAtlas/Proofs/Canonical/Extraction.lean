import EndpointAtlas.Proofs.Canonical.Blocks
import EndpointAtlas.Proofs.Canonical.Callee
import EndpointAtlas.Proofs.Canonical.Payload

/-! What is extracted from a canonical routing file: exactly the endpoints that it declares. The blocks of the
    file are its declarations, and in the text of each one every field is found where it was declared. -/

namespace EndpointAtlas.Canonical
open Text

theorem Name.routePath_eq (n : Name) (base : Text) : Endpoint.routePath base n.text = base ++ "/" ++ n.text := by
  rw [Endpoint.routePath, if_neg n.ne_do]

/-- The fields of a declared endpoint, looked for in the text of its declaration. -/
theorem Declaration.ofBlock_text (d : Declaration) {file : RoutingFile} (context : Option Text)
    (hhook : first? Endpoint.readHook? file.text = none) :
    Endpoint.ofBlock file context d.text = d.endpoint file.version (context.getD file.baseName) := by
  have hversion : Endpoint.calleeVersion? d.text file.text = some d.client.version.text := by
    rw [Endpoint.calleeVersion?, hhook, d.first?_readCreateClient]
    rfl
  have hmethod : Endpoint.calleeMethod? d.text = some d.call.text := by
    rw [Endpoint.calleeMethod?, d.first?_readClientCall]
    rfl
  unfold Endpoint.ofBlock
  simp only [d.first?_readRoute, d.first?_readTitle, d.all_readHeader, d.payload_text, hversion, hmethod,
    Option.map_some, Option.getD_some, d.route.routePath_eq]
  rfl

/-- A canonical routing file yields the endpoints that it declares, in order, and nothing else. -/
theorem ofFile_document {limit : Nat} (f : Document limit) (version baseName : Text) :
    Endpoint.ofFile limit ⟨version, baseName, joinWith "\n" f.lines⟩ = f.endpoints version baseName := by
  rw [Endpoint.ofFile, f.blocks_joinWith_lines, List.map_map, Document.endpoints]
  refine List.map_congr_left fun ⟨scopes, d⟩ _ => ?_
  show Endpoint.ofBlock _ (contextPath scopes) (trim (joinWith "\n" d.lines)) = _
  rw [d.trim_joinWith_lines]
  exact d.ofBlock_text _ f.first?_readHook

/-- Texts and names may look like other parts of a declaration. -/
example :
    let d : Declaration :=
      { title := ⟨"get do", by decide, List.all_eq_true.mp rfl, head?_cons_eq_false isBlank rfl _, by decide⟩
        headers := [⟨⟨"end", by decide, List.all_eq_true.mp rfl, head?_cons_eq_false isBlank rfl _, by decide⟩,
          ⟨"before", by decide, List.all_eq_true.mp rfl, head?_cons_eq_false isBlank rfl _, by decide⟩, fun _ => 2⟩]
        params := [⟨true, ⟨"params", by decide, List.all_eq_true.mp rfl, by decide, by decide⟩,
          ⟨"Integer", by decide, List.all_eq_true.mp rfl, by decide, by decide⟩, 0⟩]
        method := .get
        route := ⟨"if", by decide, List.all_eq_true.mp rfl, by decide, by decide⟩
        client := ⟨⟨'V', "9", rfl, List.all_eq_true.mp rfl⟩, [], ⟨"1", by decide, List.all_eq_true.mp rfl⟩,
          ⟨'B', [], rfl, List.all_eq_true.mp rfl⟩⟩
        call := ⟨"create_client", by decide, List.all_eq_true.mp rfl, by decide, by decide⟩
        indent := id }
    Endpoint.ofFile 0 ⟨"v1", "shop", joinWith "\n" d.lines⟩ =
      [⟨"v1", "get do", ["end"], some .get, "shop/if", "params=123", ⟨"V1", "create_client"⟩⟩] := by
  decide +kernel

end EndpointAtlas.Canonical
