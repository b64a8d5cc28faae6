import StackListing.Diagnostic
import StackListing.Token.Segment

/-!
# Scanning

The tokens of a source are its segments that are words, each with the place where it begins, and an
end marker behind the last segment.  Stray characters and an unclosed string become diagnostics;
they do not stop the scan.
-/

namespace StackListing

/-- The tokens of a text and the complaints about it. -/
structure Scan where
  tokens : List Token
  errors : Diagnostics
deriving DecidableEq

namespace Scan

/-- The tokens and complaints of segments, the first of which begins at `start`. -/
def ofSegments (start : Position) : List Segment → Scan
  | [] => ⟨[⟨.endOfInput, "", start⟩], []⟩
  | s :: rest =>
    let tail := ofSegments (start.advance s.text) rest
    match s.cls with
    | .token kind => { tail with tokens := ⟨kind, s.value, start⟩ :: tail.tokens }
    | .skipped => tail
    | .stray c => { tail with errors := ⟨.unexpectedCharacter c, start⟩ :: tail.errors }
    | .unclosed => { tail with errors := ⟨.unterminatedString, start⟩ :: tail.errors }

end Scan

/-- **The scan of a source text.** -/
def tokenize (source : String) : Scan :=
  Scan.ofSegments Position.start (Segment.split source.toList)

end StackListing
