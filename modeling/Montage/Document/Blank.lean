/-
New projects and pages as documents.

The settings are taken as they are given: a frame rate with a fraction gives a
page of as many frames as that makes, and a value that cannot be multiplied is
refused.
-/
import Montage.Document.Encode
import Montage.Fresh

namespace Montage.Document

/-- The frames of a new page at a frame rate. -/
def blankFrames (fps : Value) : Except Fault Value := fps.times Limits.defaultSeconds.toNat

/-- The document of a blank page. -/
def blankPage (source : IdSource) (fps name : Value) (taken : List Value) :
    Except Fault (Drawing Value) := do
  let duration ← blankFrames fps
  return do return ofPage (← Montage.blankPage source duration name taken)

/-- The document of a project with a single blank page, which is selected. -/
def blankProject (source : IdSource) (name fps width height : Value) :
    Except Fault (Drawing Value) := do
  let duration ← blankFrames fps
  return do
    let page ← Montage.blankPage source duration (.text "Page 1") []
    let id ← drawId source "project" []
    return projectWith id name (compositionOf fps width height [ofPage page] []) []
      (ofAppState { selectedPageId := page.id })

end Montage.Document
