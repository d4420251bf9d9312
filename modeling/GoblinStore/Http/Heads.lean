import GoblinStore.Http.HttpLoop

/-!
# A parser of request heads

A small HTTP parser for concrete connections: lines up to an empty one, the request line in three
words, a header as a name and a value around a colon. It agrees with the parser of the server on the
heads that are written this way.
-/

namespace GoblinStore.Http

open GoblinStore.Lib GoblinStore.Net

/-- The lines of a head and what follows its empty line; `none` while there is no empty line. -/
def headLines : Nat → List UInt8 → Option (List (List UInt8) × List UInt8)
  | 0, _ => none
  | fuel + 1, buf =>
      match splitLine buf with
      | none => none
      | some ([], rest) => some ([], rest)
      | some (line, rest) => (headLines fuel rest).map fun lines => (line :: lines.1, lines.2)

theorem head_lines_length {fuel : Nat} {buf rest : List UInt8} {lines : List (List UInt8)}
    (h : headLines fuel buf = some (lines, rest)) : rest.length < buf.length := by
  induction fuel generalizing buf lines with
  | zero => cases h
  | succ fuel ih =>
      unfold headLines at h
      split at h
      · cases h
      · rename_i hsplit
        cases h
        have := split_line_length hsplit
        omega
      · rename_i line tail _ hsplit
        obtain ⟨more, hmore, heq⟩ := Option.map_eq_some_iff.1 h
        cases heq
        have := ih hmore
        have := split_line_length hsplit
        omega

/-- A header around its first colon. -/
def headerOf (line : List UInt8) : List UInt8 × List UInt8 :=
  (line.takeWhile (· ≠ ascii ':'), (line.dropWhile (· ≠ ascii ':')).tail)

/-- The parser. -/
def plainPhr (buf : List UInt8) : Phr :=
  match headLines buf.length buf with
  | none => .incomplete
  | some ([], _) => .bad
  | some (line :: headers, rest) =>
      match words line with
      | [method, path, version] =>
          if version = text "HTTP/1.1" ∨ version = text "HTTP/1.0" then
            .ok ⟨buf.length - rest.length, method, path, if version = text "HTTP/1.1" then 1 else 0,
              headers.map headerOf⟩
          else .bad
      | _ => .bad

theorem plain_phr_consumed (buf : List UInt8) (head : PhrHead) (h : plainPhr buf = .ok head) :
    0 < head.consumed ∧ head.consumed ≤ buf.length := by
  unfold plainPhr at h
  split at h
  · cases h
  · cases h
  · rename_i hlines
    have hlength := head_lines_length hlines
    split at h
    · split_ifs at h <;> cases h <;> exact ⟨by dsimp only; omega, Nat.sub_le _ _⟩
    · cases h

/-- Paths as keys, under one digest. -/
def plainSite : Site where
  keyopt := ⟨.path, false, false, []⟩
  hashKey := fun _ => Digest.replicate 0
  phr := plainPhr
  phr_consumed := plain_phr_consumed

/-- No head ends before its first end of a line. -/
theorem plain_parse_incomplete {buf : List UInt8} (h : ascii '\r' ∉ buf) :
    parseRequest plainSite.phr buf = .incomplete := by
  have hlines : headLines buf.length buf = none := by
    cases buf.length with
    | zero => rfl
    | succ n =>
        unfold headLines
        rw [split_line_none h]
  have hphr : plainSite.phr buf = .incomplete := by
    show plainPhr buf = .incomplete
    unfold plainPhr
    rw [hlines]
  unfold parseRequest
  rw [hphr]

/-- Bytes of a client arrive. -/
def arrives (bytes : List UInt8) : ConnEvent (Nat → Faults) :=
  .complete 0 bytes.length 1 (fun i => bytes.getD i 0) fun _ => Faults.never

end GoblinStore.Http
