import EndpointAtlas.Atlas

/-!
# Runs

A run has three phases: it surveys the sources, makes the atlas and writes its documents. It ends at the
first fault, and what was done before that stays done; so a task takes a state to its result together
with the state that it leaves behind. -/

namespace EndpointAtlas

/-- A task on a state, which it may change whether it succeeds or fails. -/
abbrev Task (σ α : Type) := ExceptT Fault (StateM σ) α

/-- Where documents are kept. -/
structure Storage (σ : Type) where
  read : Text → Task σ Bytes
  write : Text → Bytes → Task σ Unit

/-- Writes documents one after the other. -/
def Storage.writeAll {σ : Type} (storage : Storage σ) : List (Text × Bytes) → Task σ Unit
  | [] => pure ()
  | (name, content) :: documents => do
    storage.write name content
    storage.writeAll documents

/-- The phases of a run. -/
structure Phases (σ : Type) where
  survey : Task σ Survey
  atlas : Survey → Task σ Atlas
  publish : Atlas → Task σ Text

/-- One phase after the other. The result is where the documents are. -/
def Phases.run {σ : Type} (p : Phases σ) : Task σ Text := do
  let survey ← p.survey
  let atlas ← p.atlas survey
  p.publish atlas

/-- Writes the documents of an atlas and answers where they are. -/
def Atlas.publish {σ : Type} (storage : Storage σ) (location : Text) (names : DocumentNames)
    (time : Text) (a : Atlas) : Task σ Text := do
  storage.writeAll (a.documents names time)
  return location

end EndpointAtlas
