/-
Options that several commands take.
-/
import Montage.Options.Table

namespace Montage.CommandOption

/-- The id of an audio track or a note. -/
def id : CommandOption :=
  taking "id" "--id" "-i" Converter.text "audio-1700000000000-abc123xyz"

/-- The id of a page. -/
def pageId : CommandOption :=
  taking "id" "--id" "-i" Converter.text "page-1700000000000-abc123xyz"

/-- The consent to a command that asks for confirmation. -/
def yes : CommandOption := flag "yes" "--yes" "-y"

/-- The address of a medium. -/
def src : CommandOption :=
  taking "src" "--src" "-s" Converter.text "\"https://example.com/media.mp3\""

/-- The length of a medium or an element on the timeline. -/
def length (hint : String) : CommandOption :=
  taking "duration" "--duration" "-dr" Converter.positiveDuration hint

/-- The time before a medium or an element begins. -/
def delay (hint : String) : CommandOption :=
  taking "delay" "--delay" "-d" Converter.duration hint

end Montage.CommandOption
