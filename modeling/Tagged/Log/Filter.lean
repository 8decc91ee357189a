import Tagged.Log.Config
import Tagged.Log.Event

/-!
# Log filters

A filter decides which events are shown. How a filter is written is not fixed here: a session
comes with a language for it, of which no more is known than that the default text can be read.
No spans are opened around events, so that a filter decides about each event by itself.
-/

namespace Tagged

structure Filter where
  shows : Event → Bool

/-- A language to write filters in. What cannot be read is refused with a reason. -/
structure FilterLanguage where
  parse : String → Except String Filter
  /-- The filter in the place of one that cannot be read. -/
  fallback : Filter
  parse_default : parse LogConfig.default.filter = .ok fallback

/-- The filter that is used for a text, and the reason if it is not the text's own. -/
def FilterLanguage.read (language : FilterLanguage) (text : String) : Filter × Option String :=
  match language.parse text with
  | .ok filter => (filter, none)
  | .error reason => (language.fallback, some reason)

end Tagged
