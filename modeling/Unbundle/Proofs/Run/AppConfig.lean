import Unbundle.Proofs.Answer
import Unbundle.Proofs.Path.Canonical
import Unbundle.Run.AppConfig

namespace Unbundle.AppConfig

variable {json : Json.Library} {text : Bytes} {files : List Container.File}

theorem canonical_of_pageFile? {page part : Bytes × Json.Value}
    (filed : pageFile? page = some part) : Path.Canonical part.1 := by
  rw [pageFile?] at filed
  split at filed
  · by_cases unnamed : pathOf (withoutEnding page.1) = []
    · rw [if_pos unnamed] at filed
      cases filed
    · rw [if_neg unnamed] at filed
      cases filed
      rw [pathOf] at unnamed ⊢
      cases found : Path.canonical? (withoutEnding page.1) with
      | none =>
        rw [found] at unnamed
        exact absurd rfl unnamed
      | some path =>
        exact (Path.canonical_of_canonical? found).append (by decide +kernel) (by decide +kernel)
  · cases filed

private theorem canonical_of_pageFiles {config : Json.Value} {part : Bytes × Json.Value}
    (member : part ∈ pageFiles config) : Path.Canonical part.1 := by
  rw [pageFiles] at member
  split at member
  · obtain ⟨page, _, filed⟩ := List.mem_filterMap.mp member
    exact canonical_of_pageFile? filed
  · cases member

private theorem toFile_eq_ok_iff {part : Bytes × Json.Value} {file : Container.File} :
    toFile json part = .ok file ↔ json.dump part.2 = .ok file.content ∧ file.name = part.1 := by
  obtain ⟨name, content⟩ := file
  rw [toFile]
  cases json.dump part.2 <;> simp [eq_comm, and_comm]

/-- A text is split just if it is read as an object and the common part and all pages can be
written. -/
theorem split_eq_ok_iff :
    split text json = .ok files ↔
      ∃ fields, json.parse text = .ok (.object fields) ∧
        List.Forall₂ (fun part file => json.dump part.2 = .ok file.content ∧ file.name = part.1)
          ((commonFileName, common fields) :: pageFiles (.object fields)) files := by
  rw [split]
  cases json.parse text with
  | error reason => simp
  | ok value =>
    cases value with
    | object fields =>
      simp only [mapM_eq_ok, toFile_eq_ok_iff, Except.ok.injEq, Json.Value.object.injEq,
        exists_eq_left']
    | _ => simp

theorem map_name_of_split {fields : List (Bytes × Json.Value)}
    (read : json.parse text = .ok (.object fields)) (made : split text json = .ok files) :
    files.map Container.File.name = commonFileName :: (pageFiles (.object fields)).map Prod.fst := by
  obtain ⟨_, read', written⟩ := split_eq_ok_iff.mp made
  cases read.symm.trans read'
  rw [← List.map_cons (f := Prod.fst) (a := (commonFileName, common fields)),
    ← List.forall₂_eq_eq_eq, List.forall₂_map_left_iff, List.forall₂_map_right_iff]
  exact written.flip.imp fun _ _ same => same.2

theorem canonical_of_split (made : split text json = .ok files) {file : Container.File}
    (member : file ∈ files) : Path.Canonical file.name := by
  obtain ⟨fields, read, _⟩ := split_eq_ok_iff.mp made
  have named := List.mem_map_of_mem (f := Container.File.name) member
  rw [map_name_of_split read made] at named
  rcases List.mem_cons.mp named with common | page
  · rw [common]
    decide
  · obtain ⟨part, listed, same⟩ := List.mem_map.mp page
    rw [← same]
    exact canonical_of_pageFiles listed

end Unbundle.AppConfig
