import PolarsLogfmt.Lazy.UnitsReader

/-!
# The units in order

What a `UnitsReader` hands out, whichever of its two interfaces is called and with whatever sizes,
is the text of its units.
-/

namespace PolarsLogfmt

open BufferedStream (Call Answer)
open UnitsReader

/-- Any calls hand out the units in order: what they handed out and what is left make up the text,
the next call shows or hands out what follows, and one that reports the end is made after the last
byte and the last unit, with nothing coming after it. -/
theorem unitsReader_faithful (texts : List Bytes) (count : Option Nat) (calls : List Call)
    (c : Call) :
    (new ⟨texts.map .ok, count⟩).handed calls ++ ((new ⟨texts.map .ok, count⟩).after calls).rest =
      texts.flatten ∧
    ∃ answer, (((new ⟨texts.map .ok, count⟩).after calls).call c).1 = .ok answer ∧
      (new ⟨texts.map .ok, count⟩).handed calls ++ answer.bytes <+: texts.flatten ∧
      (∀ bytes amt, answer = .shown bytes →
        ((((new ⟨texts.map .ok, count⟩).after calls).call c).2.call (.consume amt)).1 =
          .ok (.passed (bytes.take amt))) ∧
      (c.SaysEnd answer →
        (new ⟨texts.map .ok, count⟩).handed calls = texts.flatten ∧
        (((new ⟨texts.map .ok, count⟩).after calls).call c).2.next = texts.length ∧
        ∀ more c', ∃ answer',
          (((new ⟨texts.map .ok, count⟩).after (calls ++ c :: more)).call c').1 = .ok answer' ∧
            answer'.bytes = []) := by
  have hready := new_readable texts count
  have hrest := rest_new texts count
  have hlength : (new ⟨texts.map .ok, count⟩).units.units.length = texts.length :=
    List.length_map ..
  generalize new ⟨texts.map .ok, count⟩ = start at hready hrest hlength ⊢
  have hhanded := handed_stream ⟨start, hready⟩
  have hafter := after_stream ⟨start, hready⟩
  have hunits := units_after ⟨start, hready⟩ calls
  have hall := stream.handed_append_rest_after ⟨start, hready⟩ calls
  rw [show stream.rest ⟨start, hready⟩ = start.rest from rfl, hrest] at hall
  rw [hhanded, hafter] at *
  have hcall := call_stream (stream.after ⟨start, hready⟩ calls) c
  refine ⟨hall, (stream.call (stream.after ⟨start, hready⟩ calls) c).1, by rw [hcall], ?_, ?_, ?_⟩
  · rw [← hall]
    exact (List.prefix_append_right_inj _).mpr (BufferedStream.bytes_prefix _ c)
  · intro bytes amt hshown
    rw [hcall, call_stream]
    cases c with
    | fillBuf =>
      cases hshown
      rfl
    | consume n => cases hshown
    | read len => cases hshown
  · intro hend
    have hnil := BufferedStream.rest_of_saysEnd hend
    refine ⟨by rw [← hall, hnil, List.append_nil], ?_, ?_⟩
    · rw [next_of_saysEnd _ hend, hunits]
      exact hlength
    · intro more c'
      rw [hafter, call_stream, BufferedStream.after_append]
      exact ⟨_, rfl, (BufferedStream.call_of_rest
        (BufferedStream.rest_after_of_rest hnil (c :: more)) c').1⟩

end PolarsLogfmt
