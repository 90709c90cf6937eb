import RootFinding.Output.Event

/-!
# The journal of a run

A journal holds the sink that is written to and the events in the order in which they happened.
A text that gets lost on its way to the sink leaves one event and nothing else.
-/

namespace RootFinding

structure Journal where
  sink : Sink
  events : Array Event

namespace Journal

def start (sink : Sink) : Journal := ⟨sink, #[]⟩

def emit (j : Journal) (e : Event) : Journal := { j with events := j.events.push e }

def print : Journal → String → (WriteFault → Event) → Journal
  | ⟨sink, events⟩, text, lost =>
    match sink.write text with
    | (none, sink) => ⟨sink, events⟩
    | (some fault, sink) => ⟨sink, events.push (lost fault)⟩

theorem sink_print (j : Journal) (text : String) (lost : WriteFault → Event) :
    (j.print text lost).sink = (j.sink.write text).2 := by
  obtain ⟨sink, events⟩ := j
  simp only [print]
  split <;> simp_all

end Journal

end RootFinding
