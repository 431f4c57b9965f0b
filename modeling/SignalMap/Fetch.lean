import SignalMap.Context
import SignalMap.Value

/-!
Fetches, the signals that PLUGIN rules ask for. They are answered outside the
rules: with a value, or with a failure that lists its causes from the outside
in.
-/

namespace SignalMap

structure Failure where
  causes : List String
  deriving DecidableEq

def Failure.message (f : Failure) : String :=
  String.intercalate ": " f.causes

def Failure.ofText (text : String) : Failure := ⟨[text]⟩

structure FetchRequest where
  plugin : String
  function : Option String
  args : Fields
  facility : String
  key : String
  indices : List Nat
  signal : SignalType
  shot : Option Int
  run : Option Int

def FetchRequest.text (r : FetchRequest) : String :=
  JsonWriter.recordText
    [("plugin", JsonWriter.stringText r.plugin),
     ("function", (Json.ofOption .string r.function).text),
     ("args", (Json.object r.args).text),
     ("facility", JsonWriter.stringText r.facility),
     ("key", JsonWriter.stringText r.key),
     ("indices", JsonWriter.arrayText (r.indices.map toString)),
     ("signal_type", JsonWriter.stringText r.signal.name),
     ("shot", (Json.ofOption .ofInt r.shot).text),
     ("run", (Json.ofOption .ofInt r.run).text)]

abbrev Fetcher := FetchRequest → Except Failure Value

def Fetcher.null : Fetcher := fun _ => .ok .empty

end SignalMap
