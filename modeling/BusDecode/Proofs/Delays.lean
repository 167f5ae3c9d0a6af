import BusDecode.Proofs.Hvsp.Delay
import BusDecode.Proofs.Updi.Delay

/-!
# Decoding and delays

Where a capture begins is nothing that a decoder knows of: if all that comes in is a number of
samples later, all that goes out is so too.
-/

set_option autoImplicit false

namespace BusDecode

/-- **Decoding commutes with delays.**  If everything on a line, or on the lines of a programming
connection, comes `c` samples later, a fresh decoder hands on the same annotations in the same
order, each `c` samples later, and nothing else that it shows is different. -/
theorem decoders_delayed (c : Nat) (name : String) :
    (∀ (config : Updi.Config) (line : List Sample),
      let run := Updi.Decoder.decode { name, config } line (#[] : Array Annotation)
      let run' :=
        Updi.Decoder.decode { name, config } (line.map (Sample.delay c)) (#[] : Array Annotation)
      run'.result = run.result ∧ run'.sink = run.sink.map (·.delay c) ∧
        run'.state.decoder.stats = run.state.decoder.stats ∧
        run'.state.decoder.samplesPerBit = run.state.decoder.samplesPerBit) ∧
    (∀ (config : Hvsp.Config) (vs : List PinVector),
      let fresh : Hvsp.Decoder := { name, config }
      let run := (Hvsp.Decoder.decode.run (fresh, vs)).play (#[] : Array Annotation)
      let run' := (Hvsp.Decoder.decode.run (fresh, vs.map (PinVector.delay c))).play
        (#[] : Array Annotation)
      run'.result = run.result ∧ run'.sink = run.sink.map (·.delay c) ∧
        run'.state.1.context = run.state.1.context) :=
  ⟨Updi.decode_delay c name, Hvsp.decode_delay c name⟩

end BusDecode
