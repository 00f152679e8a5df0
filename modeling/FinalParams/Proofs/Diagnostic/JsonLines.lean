import FinalParams.Host.Report
import FinalParams.Proofs.Datum.Json
import FinalParams.Proofs.Diagnostic.Plain
import FinalParams.Proofs.Sequence

/-!
# Findings as lines of JSON

Each finding is written as one object on a line of its own.  Whatever values the findings carry, the
text is ASCII and has exactly one line for each of them.  Where the values are texts and integers,
the text tells all of them: `jsonLines_unambiguous`.
-/

namespace FinalParams

open Text

namespace Diagnostic

/-- Whatever a finding carries is a text, and its line and column are integers. -/
def Textual (d : Diagnostic) : Prop := d.Plain ∧ ∃ s, d.addon = .text s

theorem Textual.isAtom {d : Diagnostic} (h : d.Textual) : ∀ m ∈ d.members, m.2.IsAtom := by
  obtain ⟨⟨⟨errorId, hid⟩, ⟨message, hm⟩, file, line, column, hloc⟩, addon, ha⟩ := h
  simp [members, Datum.IsAtom, hid, hm, hloc, ha]

theorem graphic_jsonLine (d : Diagnostic) : Graphic d.jsonLine := Datum.graphic_json _

theorem newline_not_mem_jsonLine (d : Diagnostic) : '\n' ∉ d.jsonLine.toList := by
  intro h
  exact absurd (d.graphic_jsonLine _ h) (by decide)

theorem jsonLine_ne_empty (d : Diagnostic) : d.jsonLine ≠ "" := by
  simp [jsonLine, Datum.json]

/-- All members of a finding can be told from its line. -/
theorem Textual.eq_of_jsonLine {d e : Diagnostic} (hd : d.Textual) (he : e.Textual)
    (h : d.jsonLine = e.jsonLine) : d.members = e.members :=
  Datum.record_json_inj hd.isAtom he.isAtom h

/-- Findings with the same members are the same for whoever reads them. -/
theorem agree_of_members {d e : Diagnostic} (h : d.members = e.members) :
    d.loc = e.loc ∧ d.severity = e.severity ∧ d.message = e.message ∧ d.addon = e.addon
      ∧ d.errorId = e.errorId := by
  obtain ⟨errorId, message, severity, ⟨file, line, column⟩, checker, addon⟩ := d
  obtain ⟨errorId', message', severity', ⟨file', line', column'⟩, checker', addon'⟩ := e
  simp only [members, List.cons.injEq, Prod.mk.injEq, true_and, and_true, Datum.text.injEq] at h
  obtain ⟨rfl, rfl, rfl, hseverity, rfl, rfl, rfl⟩ := h
  have hs := congrArg Severity.ofText? hseverity
  rw [Severity.ofText?_text, Severity.ofText?_text] at hs
  exact ⟨rfl, Option.some.inj hs, rfl, rfl, rfl⟩

end Diagnostic

namespace Report

/-- The lines of the text are the lines of the findings. -/
theorem splitOn_jsonLines {r : Report} (h : r.diagnostics ≠ []) :
    r.jsonLines.toList.splitOn '\n' = r.diagnostics.map (·.jsonLine.toList) := by
  rw [jsonLines, String.toList_intercalate, List.map_map]
  apply List.splitOn_intercalate
  · intro l hl
    obtain ⟨d, -, rfl⟩ := List.mem_map.mp hl
    exact d.newline_not_mem_jsonLine
  · simpa using h

theorem jsonLines_eq_empty_iff {r : Report} : r.jsonLines = "" ↔ r.diagnostics = [] := by
  constructor
  · intro h
    cases hr : r.diagnostics with
    | nil => rfl
    | cons d rest =>
      have hsplit := splitOn_jsonLines (r := r) (by simp [hr])
      rw [h, hr, List.map_cons] at hsplit
      have hd : [] = d.jsonLine.toList := (List.cons.inj hsplit).1
      exact absurd (String.toList_eq_nil_iff.mp hd.symm) d.jsonLine_ne_empty
  · intro h
    rw [jsonLines, h]
    rfl

theorem graphic_jsonLines (r : Report) : ∀ c ∈ r.jsonLines.toList, c = '\n' ∨ IsGraphic c := by
  intro c hc
  rcases of_mem_intercalate hc with hc | ⟨s, hs, hc⟩
  · exact .inl (List.mem_singleton.mp hc)
  · obtain ⟨d, -, rfl⟩ := List.mem_map.mp hs
    exact .inr (d.graphic_jsonLine c hc)

/-- Equal texts have equal lines. -/
theorem map_jsonLine_of_eq {r r' : Report} (h : r.jsonLines = r'.jsonLines) :
    r.diagnostics.map (·.jsonLine) = r'.diagnostics.map (·.jsonLine) := by
  by_cases hr : r.diagnostics = []
  · have hr' : r'.diagnostics = [] := jsonLines_eq_empty_iff.mp (h ▸ jsonLines_eq_empty_iff.mpr hr)
    rw [hr, hr']
  · have hr' : r'.diagnostics ≠ [] := fun h' =>
      hr (jsonLines_eq_empty_iff.mp (h.trans (jsonLines_eq_empty_iff.mpr h')))
    have hlines := splitOn_jsonLines hr
    rw [h, splitOn_jsonLines hr'] at hlines
    apply List.map_injective_iff.mpr fun _ _ => String.toList_inj.mp
    rw [List.map_map, List.map_map]
    exact hlines.symm

/-- The text is ASCII, its lines are those of the findings, and where the findings carry texts and
integers it tells everything that they say. -/
theorem jsonLines_unambiguous (r r' : Report) :
    (∀ c ∈ r.jsonLines.toList, c = '\n' ∨ IsGraphic c)
      ∧ (r.jsonLines = "" ↔ r.diagnostics = [])
      ∧ (r.jsonLines ≠ "" →
        r.jsonLines.toList.splitOn '\n' = r.diagnostics.map (·.jsonLine.toList))
      ∧ ((∀ d ∈ r.diagnostics, d.Textual) → (∀ d ∈ r'.diagnostics, d.Textual) →
        r.jsonLines = r'.jsonLines →
        List.Forall₂ (fun d e => d.loc = e.loc ∧ d.severity = e.severity ∧ d.message = e.message
          ∧ d.addon = e.addon ∧ d.errorId = e.errorId) r.diagnostics r'.diagnostics) := by
  refine ⟨graphic_jsonLines r, jsonLines_eq_empty_iff, ?_, ?_⟩
  · intro h
    exact splitOn_jsonLines fun hnil => h (jsonLines_eq_empty_iff.mpr hnil)
  · intro hr hr' h
    apply forall₂_of_map_eq (map_jsonLine_of_eq h)
    intro d hd e he hline
    exact Diagnostic.agree_of_members ((hr d hd).eq_of_jsonLine (hr' e he) hline)

/-- Two findings whose texts look like parts of the encoding, of which one has a character that
takes two escapes. -/
def trickyReport (checker : String) : Report where
  diagnostics := [
    { errorId := .text "x\", \"extra\": \"", message := .text "\n\\u00e9\u00e9\x7f"
      severity := .warning
      loc := { file := .text "𝑥.c", line := .int (-12), column := .int 3 }, checker },
    { errorId := .text "", message := .text "\"", severity := .error, loc := {}, checker }]

theorem trickyReport_textual (checker : String) :
    ∀ d ∈ (trickyReport checker).diagnostics, d.Textual := by
  intro d hd
  simp only [trickyReport, List.mem_cons, List.not_mem_nil, or_false] at hd
  rcases hd with rfl | rfl
  · exact ⟨⟨⟨_, rfl⟩, ⟨_, rfl⟩, _, _, _, rfl⟩, _, rfl⟩
  · exact ⟨⟨⟨_, rfl⟩, ⟨_, rfl⟩, _, _, _, rfl⟩, _, rfl⟩

theorem jsonLines_unambiguous_trickyReport :
    (trickyReport "a").jsonLines = (trickyReport "b").jsonLines
      ∧ (trickyReport "a").jsonLines.toList.splitOn '\n'
        = (trickyReport "a").diagnostics.map (·.jsonLine.toList)
      ∧ List.Forall₂ (fun d e => d.loc = e.loc ∧ d.severity = e.severity ∧ d.message = e.message
        ∧ d.addon = e.addon ∧ d.errorId = e.errorId)
        (trickyReport "a").diagnostics (trickyReport "b").diagnostics := by
  have hne : (trickyReport "a").jsonLines ≠ "" := fun h =>
    absurd (jsonLines_eq_empty_iff.mp h) (List.cons_ne_nil _ _)
  have hequal : (trickyReport "a").jsonLines = (trickyReport "b").jsonLines := rfl
  obtain ⟨-, -, hsplit, hagree⟩ := jsonLines_unambiguous (trickyReport "a") (trickyReport "b")
  exact ⟨hequal, hsplit hne,
    hagree (trickyReport_textual "a") (trickyReport_textual "b") hequal⟩

end Report
end FinalParams
