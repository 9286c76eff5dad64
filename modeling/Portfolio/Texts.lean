/-
# No NUL in the tables, and none in a record

PostgreSQL stores no NUL in `text` and none in a text of `jsonb`. The handlers
admit none, so the rows of the initiatives hold none (`legible_of_history`),
and neither does the record a mutation leaves in its receipt: its other texts
are decimal numbers, dates and timestamps (`Fresh.nulFree`).

Key definitions: `InitiativeRow.texts`, `Facts.Legible`.
Key theorems: `hasNul_date`, `hasNul_timestamp`, `Fresh.legible`, `Fresh.nulFree`.
-/
import Portfolio.Requests
import Portfolio.DateText

namespace Portfolio

open Txn

/-! ### Texts of numbers and times -/

theorem hasNul_eq_false {s : String} : hasNul s = false ↔ Char.ofNat 0 ∉ s.toList := by
  rw [hasNul, Bool.eq_false_iff, ne_eq, List.contains_iff_mem]

theorem hasNul_append (s t : String) : hasNul (s ++ t) = (hasNul s || hasNul t) := by
  unfold hasNul
  rw [String.toList_append, List.contains_eq_any_beq, List.any_append, List.contains_eq_any_beq,
    List.contains_eq_any_beq]

theorem hasNul_of_digits {s : String} (h : Decimal.Digits s.toList) : hasNul s = false := by
  rw [hasNul_eq_false]
  intro hmem
  have hdigit := h _ hmem
  revert hdigit
  decide

theorem hasNul_padded (w n : ℕ) : hasNul (padded w n) = false := hasNul_of_digits (digits_padded w n)

theorem hasNul_toString (n : ℤ) : hasNul (toString n) = false := by
  have hnat : ∀ m : ℕ, hasNul (toString m) = false := fun m => by
    refine hasNul_of_digits ?_
    have h := Decimal.digits_toDigits m
    simpa using h
  cases n with
  | ofNat m => exact hnat m
  | negSucc m =>
    have htext : toString (Int.negSucc m) = "-" ++ toString (m + 1) := rfl
    rw [htext, hasNul_append, hnat]
    decide

theorem hasNul_date (d : Date) : hasNul d.text = false := by
  have hsign : hasNul (if d.year < 0 then "-" else "") = false := by
    split <;> decide
  have hdash : hasNul "-" = false := by decide
  simp only [Date.text, hasNul_append, hasNul_padded, hsign, hdash, Bool.or_false]

theorem hasNul_fraction (width decimals : ℕ) : hasNul (fraction width decimals) = false := by
  unfold fraction
  split
  · decide
  · have hdigits : Decimal.Digits
        (String.ofList ((padded width decimals).toList.reverse.dropWhile (· = '0')).reverse).toList := by
      intro c hc
      rw [String.toList_ofList, List.mem_reverse] at hc
      exact digits_padded width decimals c (List.mem_reverse.mp ((List.dropWhile_sublist _).subset hc))
    have hpoint : hasNul "." = false := by decide
    rw [hasNul_append, hpoint, hasNul_of_digits hdigits]
    rfl

theorem hasNul_timestamp {v : OffsetDateTime} {text : String} (h : formatTimestamp v = some text) :
    hasNul text = false := by
  unfold formatTimestamp rfc3339 at h
  simp only at h
  split at h
  · have hconst : hasNul "-" = false ∧ hasNul "T" = false ∧ hasNul ":" = false ∧ hasNul "Z" = false := by decide
    obtain ⟨hdash, hT, hcolon, hZ⟩ := hconst
    rw [← Option.some.inj h]
    simp only [hasNul_append, hasNul_padded, hasNul_fraction, hdash, hT, hcolon, hZ, Bool.or_false]
  · cases h

theorem hasNul_optionalTimestamp {v : Option OffsetDateTime} {text : Option String}
    (h : optionalTimestamp v = some text) : text.any hasNul = false := by
  cases v with
  | none =>
    obtain rfl := Option.some.inj h
    rfl
  | some v =>
    obtain ⟨s, hs, rfl⟩ := Option.map_eq_some_iff.mp h
    exact hasNul_timestamp hs

theorem hasNul_optionalDate (d : Option Date) : (optionalDate d).any hasNul = false := by
  cases d with
  | none => rfl
  | some d => exact hasNul_date d

/-! ### The rows of the initiatives -/

/-- The texts of a row that its initiative's record repeats. -/
def InitiativeRow.texts (row : InitiativeRow) : List String :=
  [row.organizationId, row.initiativeId, row.name, row.health] ++ row.summary.toList ++ row.ownerSubject.toList

/-- No row of an initiative holds a NUL. -/
def Facts.Legible (F : Facts) : Prop := ∀ row ∈ F.initiatives, Clean row.texts

section
variable {actor : String} {op : Op} {F F' : Facts} {r : Record} {row : InitiativeRow}

theorem clean_patched {patch : InitiativePatch} {t : Tick} (hrow : Clean row.texts)
    (hpatch : Clean (patch.name.toList ++ patch.summary.toList ++ patch.ownerSubject.toList)) :
    Clean (Sql.patched patch t row).texts := by
  simp only [InitiativeRow.texts, clean_append, clean_cons, clean_nil, and_true] at hrow hpatch ⊢
  obtain ⟨⟨⟨ho, hi, hname, hhealth⟩, -⟩, -⟩ := hrow
  obtain ⟨⟨hnew, hsummary⟩, howner⟩ := hpatch
  refine ⟨⟨⟨ho, hi, ?_, hhealth⟩, hsummary⟩, howner⟩
  cases hn : patch.name with
  | none => simpa [Sql.patched, hn] using hname
  | some name => simpa [Sql.patched, hn] using hnew name (by simp [hn])

theorem clean_advanced {health : String} {progress revision : ℤ} {t : Tick} (hrow : Clean row.texts)
    (hhealth : hasNul health = false) : Clean (Sql.advanced health progress revision t row).texts := by
  simp only [InitiativeRow.texts, clean_append, clean_cons, clean_nil, and_true] at hrow ⊢
  exact ⟨⟨⟨hrow.1.1.1, hrow.1.1.2.1, hrow.1.1.2.2.1, hhealth⟩, hrow.1.2⟩, hrow.2⟩

theorem clean_initiativeRow {v : InitiativeCreate} {rowSeq : ℤ} {t : Tick} (h : Clean (Op.createInitiative v).texts) :
    Clean (Sql.initiativeRow v rowSeq t).texts := by
  simp only [Op.texts, InitiativeRow.texts, clean_append, clean_cons, clean_nil, and_true] at h ⊢
  have hhealth : hasNul "no_update" = false := by decide
  exact ⟨⟨⟨h.1.1.1, h.1.1.2.1, h.1.1.2.2, hhealth⟩, h.1.2⟩, h.2⟩

theorem legible_set (hF : F.Legible) (hrow : Clean row.texts) : (F.setInitiative row).Legible := by
  intro row' hrow'
  rcases (Table.mem_put _).mp hrow' with ⟨hrow', -⟩ | ⟨rfl, -⟩
  · exact hF row' hrow'
  · exact hrow

/-- A fresh success with clean texts leaves the rows clean. -/
theorem Fresh.legible (h : Fresh actor op F r F') (hop : Clean op.texts) (hF : F.Legible) : F'.Legible := by
  have hrow : ∀ {o i : String} {row : InitiativeRow}, F.Open o i row → Clean row.texts := fun hopen =>
    hF _ (initiative_mem hopen.found).1
  cases h with
  | createInitiative =>
    intro row hmem
    rcases List.mem_append.mp hmem with hmem | hmem
    · exact hF row hmem
    · exact List.mem_singleton.mp hmem ▸ clean_initiativeRow hop
  | updateInitiative hopen => exact legible_set hF (clean_patched (hrow hopen) (clean_append.mp hop).2)
  | addUpdate hopen =>
    refine legible_set hF (clean_advanced (hrow hopen) ?_)
    exact hop _ (by simp [Op.texts])
  | archiveInitiative hopen | attachProject hopen | updateProjectSnapshot hopen | detachProject hopen
  | reorderProjects hopen =>
    have htexts := hrow hopen
    exact legible_set hF htexts

/-- The rows of a history of calls with clean texts. -/
theorem legible_of_history {T : Tables} {cs : List Committed} (h : History Tables.empty cs T)
    (hcs : ∀ x ∈ cs, Clean x.call.op.texts) : T.Legible :=
  h.preserves (I := Facts.Legible) (fun _ hr => (List.not_mem_nil hr).elim) fun x hx _ _ _ hF hf =>
    hf.legible (hcs x hx) hF

/-! ### The records -/

theorem anyText_ofOption (x : Option String) : (Json.ofOption .str x).anyText hasNul = x.any hasNul := by
  cases x <;> rfl

theorem anyText_int (n : ℤ) : (Json.int n).anyText hasNul = false := rfl

theorem any_toList {x : Option String} (h : Clean x.toList) : x.any hasNul = false := by
  cases x with
  | none => rfl
  | some s => exact h s (by simp)

/-- A name without a NUL, in front of the other fields. -/
theorem anyText_fields {name : String} {j : Json} {fields : List (String × Json)} (hname : hasNul name = false) :
    Json.anyTextFields hasNul ((name, j) :: fields) = (j.anyText hasNul || Json.anyTextFields hasNul fields) := by
  rw [Json.anyTextFields, hname, Bool.false_or]

theorem nulFree_initiative {n : ℕ} {r : InitiativeRecord} (h : initiativeFromRow row n = some r)
    (hrow : Clean row.texts) : r.toJson.anyText hasNul = false := by
  obtain ⟨createdAt, hcreated, h⟩ := Option.bind_eq_some_iff.mp h
  obtain ⟨updatedAt, hupdated, h⟩ := Option.bind_eq_some_iff.mp h
  obtain ⟨archivedAt, harchived, h⟩ := Option.bind_eq_some_iff.mp h
  obtain rfl := Option.some.inj h
  simp only [InitiativeRow.texts, clean_append, clean_cons, clean_nil, and_true] at hrow
  obtain ⟨⟨⟨ho, hi, hname, hhealth⟩, hsummary⟩, howner⟩ := hrow
  simp only [InitiativeRecord.toJson, Json.anyText]
  repeat rw [anyText_fields (by decide)]
  simp only [Json.anyText, Json.anyTextFields, anyText_ofOption, anyText_int, hasNul_toString, hasNul_optionalDate,
    hasNul_timestamp hcreated, hasNul_timestamp hupdated, hasNul_optionalTimestamp harchived, ho, hi, hname, hhealth,
    any_toList hsummary, any_toList howner, Bool.or_false]

theorem nulFree_archive {r : ArchiveRecord} (h : archiveFromRow row = some r) (ho : hasNul row.organizationId = false)
    (hi : hasNul row.initiativeId = false) : r.toJson.anyText hasNul = false := by
  obtain ⟨updatedAt, hupdated, h⟩ := Option.bind_eq_some_iff.mp h
  obtain ⟨archivedAt, harchived, h⟩ := Option.bind_eq_some_iff.mp h
  obtain rfl := Option.some.inj h
  simp only [ArchiveRecord.toJson, Json.anyText]
  repeat rw [anyText_fields (by decide)]
  simp only [Json.anyText, Json.anyTextFields, anyText_ofOption, hasNul_toString, hasNul_timestamp hupdated,
    hasNul_optionalTimestamp harchived, ho, hi, Bool.or_false]

theorem nulFree_update {v : Sql.UpdateValues} {rowSeq : ℤ} {t : Tick} {r : UpdateRecord}
    (h : updateFromRow (Sql.updateRow v rowSeq t) = some r)
    (hv : Clean [v.organizationId, v.initiativeId, v.updateId, v.health, v.summary, v.createdBy]) :
    r.toJson.anyText hasNul = false := by
  obtain ⟨createdAt, hcreated, h⟩ := Option.bind_eq_some_iff.mp h
  obtain rfl := Option.some.inj h
  simp only [clean_cons, clean_nil, and_true] at hv
  obtain ⟨ho, hi, hu, hhealth, hsummary, hactor⟩ := hv
  simp only [UpdateRecord.toJson, Sql.updateRow, Json.anyText]
  repeat rw [anyText_fields (by decide)]
  simp only [Json.anyText, Json.anyTextFields, anyText_int, hasNul_toString, hasNul_timestamp hcreated, ho, hi, hu,
    hhealth, hsummary, hactor, Bool.or_false]

theorem nulFree_project {p : ProjectRow} {revision : ℤ} {r : ProjectRecord}
    (h : projectFromRow p (some (toString revision)) = some r)
    (hp : Clean [p.projectId, p.nameSnapshot, p.statusCategory, p.health, p.snapshotRevision]) :
    r.toJson.anyText hasNul = false := by
  obtain ⟨observedAt, hobserved, h⟩ := Option.bind_eq_some_iff.mp h
  obtain rfl := Option.some.inj h
  simp only [clean_cons, clean_nil, and_true] at hp
  obtain ⟨hid, hname, hstatus, hhealth, hrevision⟩ := hp
  simp only [ProjectRecord.toJson, Json.anyText, List.cons_append, List.nil_append]
  repeat rw [anyText_fields (by decide)]
  simp only [Json.anyText, Json.anyTextFields, anyText_ofOption, anyText_int, hasNul_toString, hasNul_optionalDate,
    hasNul_timestamp hobserved, hid, hname, hstatus, hhealth, hrevision, Bool.or_false]

theorem nulFree_reorderItems : ∀ {items : List ReorderItemRecord},
    (∀ item ∈ items, hasNul item.projectId = false ∧ hasNul item.membershipRevision = false) →
      Json.anyTextList hasNul (items.map ReorderItemRecord.toJson) = false
  | [], _ => rfl
  | item :: items, h => by
    obtain ⟨⟨hid, hrevision⟩, hrest⟩ := List.forall_mem_cons.mp h
    rw [List.map_cons, Json.anyTextList, nulFree_reorderItems hrest, Bool.or_false]
    simp only [ReorderItemRecord.toJson, Json.anyText]
    repeat rw [anyText_fields (by decide)]
    simp only [Json.anyText, Json.anyTextFields, anyText_int, hid, hrevision, Bool.or_false]

theorem nulFree_reorder {revision : ℤ} {items : List ReorderInput} (h : Clean (items.map (·.projectId))) :
    (ReorderRecord.toJson ⟨toString revision,
      (reorderOutput items).insertionSort fun a b => a.position ≤ b.position⟩).anyText hasNul = false := by
  have hitems : ∀ item ∈ (reorderOutput items).insertionSort fun a b => a.position ≤ b.position,
      hasNul item.projectId = false ∧ hasNul item.membershipRevision = false := by
    intro item hitem
    obtain ⟨input, hinput, rfl⟩ := List.mem_map.mp ((List.mem_insertionSort _).mp hitem)
    exact ⟨h _ (List.mem_map.mpr ⟨input, hinput, rfl⟩), hasNul_toString _⟩
  simp only [ReorderRecord.toJson, Json.anyText, Json.ofList]
  repeat rw [anyText_fields (by decide)]
  simp only [Json.anyText, Json.anyTextFields, hasNul_toString, nulFree_reorderItems hitems, Bool.or_false]

/-- **The record of a fresh success holds no NUL.** -/
theorem Fresh.nulFree (h : Fresh actor op F r F') (hop : Clean op.texts) (hactor : hasNul actor = false)
    (hF : F.Legible) : r.toJson.anyText hasNul = false := by
  have hrow : ∀ {o i : String} {row : InitiativeRow}, F.Open o i row → Clean row.texts := fun hopen =>
    hF _ (initiative_mem hopen.found).1
  cases h with
  | createInitiative _ _ hr => exact nulFree_initiative hr (clean_initiativeRow hop)
  | updateInitiative hopen _ _ hr =>
    exact nulFree_initiative hr (clean_patched (hrow hopen) (clean_append.mp hop).2)
  | addUpdate _ _ _ hu _ hr =>
    subst hu
    simp only [Op.texts, clean_cons, clean_nil, and_true] at hop
    obtain ⟨ho, hi, hu, hhealth, hsummary⟩ := hop
    refine nulFree_update hr ?_
    simp only [clean_cons, clean_nil, and_true]
    exact ⟨ho, hi, hu, hhealth, hsummary, hactor⟩
  | archiveInitiative hopen _ _ hr =>
    have htexts := hrow hopen
    simp only [InitiativeRow.texts, clean_append, clean_cons, clean_nil, and_true] at htexts
    exact nulFree_archive hr htexts.1.1.1 htexts.1.1.2.1
  | attachProject _ _ _ _ _ _ _ hr => exact nulFree_project hr (clean_append.mp hop).2
  | @updateProjectSnapshot o i _ s _ _ p _ _ _ hold _ _ _ hr =>
    have hid : p.projectId = s.projectId := (project_mem hold).2.2.2
    have hbinds : Clean (Sql.snapshotBinds s) := (clean_append.mp hop).2
    refine nulFree_project hr ?_
    simp only [Sql.refreshed, hid]
    exact hbinds
  | detachProject =>
    simp only [Record.toJson, DetachRecord.toJson, Json.anyText]
    repeat rw [anyText_fields (by decide)]
    simp only [Json.anyText, Json.anyTextFields, hasNul_toString, Bool.or_false]
  | reorderProjects => exact nulFree_reorder (clean_append.mp hop).2

end

end Portfolio
