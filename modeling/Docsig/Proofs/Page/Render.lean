import Docsig.Page.Render
import Docsig.Proofs.Definition.Export
import Docsig.Proofs.Json.Writable

/-!
Pages that can be rendered.

The one thing on a page that may have no text is a default. Every row of a table has the
default of an entry in the table's parameters (`mem_rowsOfAll`), so a definition has a page
under every key if its defaults have JSON texts (`exists_render`).
-/

namespace Docsig.Page

variable {r : Row} {rs : List Row} {depth : Nat} {p : Parameter} {ps : List Parameter}
  {d : Definition}

/-! ### Rows -/

theorem rowsOfAll_eq (depth : Nat) (ps : List Parameter) :
    rowsOfAll depth ps = ps.flatMap (rowsOf depth) := by
  induction ps with
  | nil => rfl
  | cons p ps ih => rw [rowsOfAll, ih, List.flatMap_cons]

/-- A row has the default of an entry of its parameter. -/
theorem mem_rowsOf (h : r ∈ rowsOf depth p) :
    ∃ q ∈ p.entries, r.default? = q.default?.map Value.thaw := by
  induction p using Parameter.nested_induction generalizing depth with
  | step p ih =>
      obtain ⟨name, type, description, default?, schema?, members?⟩ := p
      rw [rowsOf, List.mem_cons] at h
      rcases h with rfl | h
      · exact ⟨_, self_mem_entries _, rfl⟩
      · cases schema? with
        | none => cases h
        | some ps =>
            rw [rowsOfSchema, rowsOfAll_eq, List.mem_flatMap] at h
            obtain ⟨q, hq, h⟩ := h
            obtain ⟨e, he, same⟩ := ih ps rfl q hq h
            exact ⟨e, entries_of_field rfl hq he, same⟩

/-- Every row shows the default of an entry in its open form. -/
theorem mem_rowsOfAll (h : r ∈ rowsOfAll depth ps) :
    ∃ q ∈ allEntries ps, r.default? = q.default?.map Value.thaw := by
  rw [rowsOfAll_eq, List.mem_flatMap] at h
  obtain ⟨p, hp, h⟩ := h
  obtain ⟨q, hq, same⟩ := mem_rowsOf h
  exact ⟨q, entries_of_mem hp hq, same⟩

/-! ### Texts -/

/-- A row has a line if its default has a text. -/
theorem exists_line (h : ∀ v, r.default? = some v → v.IsWritable) : ∃ s, r.line = .ok s := by
  obtain ⟨cell, hcell⟩ : ∃ s, r.defaultCell = .ok s := by
    rw [Row.defaultCell]
    cases found : r.default? with
    | none => exact ⟨_, rfl⟩
    | some v =>
        obtain ⟨text, written⟩ := (h v found).exists_text
        exact ⟨_, bind_eq_ok.mpr ⟨text, written, rfl⟩⟩
  exact ⟨_, bind_eq_ok.mpr ⟨cell, hcell, rfl⟩⟩

/-- Rows can be written if their defaults can. -/
theorem exists_lines (h : ∀ r ∈ rs, ∀ v, r.default? = some v → v.IsWritable) :
    ∃ s, lines rs = .ok s := by
  induction rs with
  | nil => exact ⟨_, rfl⟩
  | cons r rs ih =>
      obtain ⟨first, others⟩ := List.forall_mem_cons.mp h
      obtain ⟨line, hline⟩ := exists_line first
      obtain ⟨rest, hrest⟩ := ih others
      exact ⟨_, bind_eq_ok.mpr ⟨line, hline, bind_eq_ok.mpr ⟨rest, hrest, rfl⟩⟩⟩

/-- Parameters have a table if the defaults of their entries have texts. -/
theorem exists_table (h : ∀ q ∈ allEntries ps, q.Holds Value.IsWritable) :
    ∃ s, table (rows ps) = .ok s := by
  obtain ⟨body, hbody⟩ : ∃ s, lines (rows ps) = .ok s := by
    refine exists_lines fun r hr v hv => ?_
    obtain ⟨q, hq, same⟩ := mem_rowsOfAll hr
    obtain ⟨u, hu, rfl⟩ := Option.map_eq_some_iff.mp (same ▸ hv)
    exact (h q hq).default u hu
  exact ⟨_, bind_eq_ok.mpr ⟨body, hbody, rfl⟩⟩

/-- **A definition has a page under every key** if its defaults have JSON texts. -/
theorem exists_render (h : d.Holds Value.IsWritable) (key? : Option String) :
    ∃ s, render d key? = .ok s := by
  obtain ⟨parameters, hparameters⟩ : ∃ s, parameterPart d = .ok s := by
    rw [parameterPart]
    split
    · exact ⟨_, rfl⟩
    · exact exists_table h.params
  obtain ⟨fields, hfields⟩ : ∃ s, returnTable d.returns = .ok s := by
    rw [returnTable]
    split
    · exact ⟨_, rfl⟩
    · exact ⟨_, rfl⟩
    · rename_i ps _ schema
      obtain ⟨body, hbody⟩ := exists_table fun q hq => h.returned q (schema ▸ hq)
      exact ⟨_, bind_eq_ok.mpr ⟨body, hbody, rfl⟩⟩
  exact ⟨_, bind_eq_ok.mpr ⟨parameters, hparameters, bind_eq_ok.mpr ⟨fields, hfields, rfl⟩⟩⟩

end Docsig.Page
