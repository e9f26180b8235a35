import SdCompat.SdJson.StreamParse
import SdCompat.SdJson.ParseComplete

/-! # Framing of the incoming stream

    The bytes taken from the socket, split at every delimiter, and the results
    of `json_stream_parse`: whatever parts the bytes came in, the results are
    the parses of the segments, one after the other, up to the first segment
    that is rejected. What was buffered behind a rejected one is dropped.
-/

open Transition

namespace SdCompat.Json

open JsonInput List

/-! ## Section 1: Splitting a stream -/

/-- `Split d l segments rest`: `l` is these segments, each up to the first
    delimiter and followed by it, and the rest, which may go on the same. -/
inductive Split (d : List UInt8) : List UInt8 → List (List UInt8) → List UInt8 → Prop where
  | nil (l : List UInt8) : Split d l [] l
  | cons {l rest : List UInt8} {e : Nat} {segments : List (List UInt8)} (hf : First d l e)
      (h : Split d (l.drop (e + d.length)) segments rest) : Split d l (l.take e :: segments) rest

section split
variable {d l m rest : List UInt8} {segments : List (List UInt8)}

/-- One more segment. -/
theorem Split.snoc {e : Nat} (h : Split d l segments rest) (hf : First d rest e) :
    Split d l (segments ++ [rest.take e]) (rest.drop (e + d.length)) := by
  induction h with
  | nil l => exact .cons hf (.nil _)
  | cons hf' _ ih => exact .cons hf' (ih hf)

/-- More bytes only make the rest longer. -/
theorem Split.append (h : Split d l segments rest) (hd : d ≠ []) (m : List UInt8) :
    Split d (l ++ m) segments (rest ++ m) := by
  induction h with
  | nil l => exact .nil _
  | @cons l rest e segments hf _ ih =>
    have hle := hf.le hd
    have hfirst : First d (l ++ m) e := hf.append hd
    have hcons := Split.cons hfirst
      (by rw [drop_append_of_le_length hle]; exact ih)
    rwa [take_append_of_le_length (by omega)] at hcons

/-- A stream is split in one way: the segments and the rest after the last
    delimiter depend on the bytes alone. -/
theorem Split.unique {rest' : List UInt8} {segments' : List (List UInt8)}
    (h : Split d l segments rest) (hw : Without d rest) (h' : Split d l segments' rest')
    (hw' : Without d rest') : segments = segments' ∧ rest = rest' := by
  induction h generalizing segments' with
  | nil l =>
    cases h' with
    | nil => exact ⟨rfl, rfl⟩
    | cons hf => exact (hw.not_first hf).elim
  | cons hf _ ih =>
    cases h' with
    | nil => exact (hw'.not_first hf).elim
    | cons hf' h' =>
      obtain rfl := hf.unique hf'
      obtain ⟨rfl, rfl⟩ := ih hw h'
      exact ⟨rfl, rfl⟩

end split

/-! ## Section 2: The results of a run -/

variable {R : Type} [Double R]

/-- A stream, and what its parses came to so far. -/
structure Framing (R : Type) where
  input : JsonInput
  results : List (Outcome (Variant R))

/-- What a call of `json_stream_parse` adds to the results; nothing where it
    returns 0. -/
def parse_result : Outcome (Option (Variant R)) → List (Outcome (Variant R))
  | .ok none => []
  | .ok (some v) => [.ok v]
  | .err e => [.err e]
  | .abort => [.abort]

/-- Reads and parses in any order. A read may fail, but not after it has taken
    bytes from the socket. -/
def framing_system (R : Type) [Double R] : System (Framing R) InputCall where
  init s := (input_system R).init s.input ∧ s.results = []
  step s l s' :=
    (input_system R).step s.input l s'.input ∧
      match l with
      | .read env => s'.results = s.results ∧
          ∀ e, (json_stream_read env s.input).1 = .err e → s'.input.taken = s.input.taken
      | .parse => s'.results = s.results ++ parse_result (json_stream_parse (R := R) s.input).1

/-- The parse of a segment. -/
def parse_segment (R : Type) [Double R] (segment : List UInt8) : Outcome (Variant R) :=
  sd_json_parse segment MUST_BE_OBJECT

/-- All results are of messages, none is of a rejected one. -/
def AllOk (results : List (Outcome (Variant R))) : Prop := ∀ r ∈ results, r.isOk = true

/-- The invariant: the results are the parses of the segments taken so far,
    and unless the last of them was rejected, the buffer has the rest. -/
structure Framed (s : Framing R) : Prop where
  searched : s.input.Searched
  split : AllOk s.results.dropLast → ∃ segments rest,
    s.results = segments.map (parse_segment R) ∧ Split s.input.delim s.input.taken segments rest ∧
      (AllOk s.results → s.input.content = rest)

section run
variable {s s' : Framing R}

theorem AllOk.dropLast {results : List (Outcome (Variant R))} (h : AllOk results) :
    AllOk results.dropLast := fun r hr => h r (dropLast_subset _ hr)

/-- The bytes in the buffer are the rest after the segments. -/
theorem Framed.rest (h : Framed s) (hok : AllOk s.results) : ∃ segments,
    s.results = segments.map (parse_segment R) ∧
      Split s.input.delim s.input.taken segments s.input.content := by
  obtain ⟨segments, rest, hres, hsplit, hrest⟩ := h.split hok.dropLast
  exact ⟨segments, hres, hrest hok ▸ hsplit⟩

theorem Framed.init (h : (framing_system R).init s) : Framed s := by
  obtain ⟨hinit, hres⟩ := h
  refine ⟨(Stopped.init (R := R) hinit).searched, fun _ => ⟨[], [], by rw [hres]; rfl, ?_, fun _ => ?_⟩⟩
  · rw [hinit.2.2.2.2]
    exact .nil _
  · rw [content, hinit.2.2.1]
    simp [Bytes.slice]

/-- A read adds what it takes to the rest. -/
theorem Framed.read {env : StreamEnv} (h : Framed s)
    (hst : (framing_system R).step s (.read env) s') : Framed s' := by
  obtain ⟨hinput, hres, hlost⟩ := hst
  obtain ⟨m, -, hun, hgl⟩ := read_step h.searched hinput
  have hd := s.input.setup.delim_ne
  rcases hgl with hg | ⟨⟨e, he⟩, hl⟩
  · refine ⟨h.searched.grew hg hun, fun hok => ?_⟩
    rw [hres] at hok ⊢
    obtain ⟨segments, rest, hsegs, hsplit, hrest⟩ := h.split hok
    refine ⟨segments, rest ++ s.input.unread.take m, hsegs, ?_, fun hall => ?_⟩
    · rw [delim, hg.setup, hg.taken]
      exact hsplit.append hd _
    · rw [hg.content, hrest hall]
  · refine ⟨h.searched.lost hl, fun hok => ?_⟩
    rw [hres] at hok ⊢
    rw [delim, hl.setup, hlost e he, hl.content]
    exact h.split hok

/-- A parse takes the next segment from the rest, if it is complete. -/
theorem Framed.parse (h : Framed s) (hst : (framing_system R).step s .parse s') : Framed s' := by
  obtain ⟨hinput, hres⟩ := hst
  obtain ⟨hsetup, htaken, -, hsearched, -⟩ := parse_step h.searched hinput
  refine ⟨hsearched, fun hok => ?_⟩
  obtain ⟨hab, hstate⟩ := hinput
  have hp := parses (R := R) h.searched.inside h.searched.scanned
  generalize json_stream_parse (R := R) s.input = r at hab hp hres hstate
  rw [delim, hsetup, htaken]
  -- what a result adds to the segments, where all before it are messages
  have hnext : ∀ {e : Nat} {r : Outcome (Variant R)}, s'.results = s.results ++ [r] →
      First s.input.delim s.input.content e → parse_segment R (s.input.content.take e) = r →
      ∃ segments, s'.results = segments.map (parse_segment R) ∧
        Split s.input.delim s.input.taken segments (s.input.content.drop (e + s.input.delim.length)) := by
    intro e r hres hf hr
    rw [hres, dropLast_concat] at hok
    obtain ⟨segments, hsegs, hsplit⟩ := h.rest hok
    exact ⟨_, by rw [hres, hsegs, ← hr, map_append, map_singleton], hsplit.snoc hf⟩
  cases hp with
  | waits hw hs =>
    have hsame : s'.results = s.results := by simpa [parse_result] using hres
    have hcontent : s'.input.content = s.input.content := by rw [hstate]; exact hs.content
    rw [hsame] at hok ⊢
    rw [hcontent]
    exact h.split hok
  | message hf hv hs =>
    obtain ⟨segments, hsegs, hsplit⟩ := hnext hres hf hv
    exact ⟨segments, _, hsegs, hsplit, fun _ => by rw [hstate]; exact hs.content⟩
  | rejected hf hv hs =>
    obtain ⟨segments, hsegs, hsplit⟩ := hnext hres hf hv
    refine ⟨segments, _, hsegs, hsplit, fun hall => ?_⟩
    -- the last result is of a rejected segment
    have hlast := hall _ (hres ▸ mem_append_right _ (mem_singleton.mpr rfl))
    cases hlast
  | aborted => exact (hab rfl).elim

theorem framed_of_reachable (h : Reachable (framing_system R) s) : Framed s := by
  refine Reachable.invariant (S := framing_system R) (fun _ hi => .init hi) (fun s l s' hs hst => ?_) h
  cases l with
  | read env => exact hs.read hst
  | parse => exact hs.parse hst

end run

/-! ## Section 3: Framing -/

/-- Where no delimiter is in the buffer yet, there is room for the rest of a
    segment that fits, so the next read is not refused. -/
theorem room_for_segment {d content unread : List UInt8} {e max : Nat} (hw : Without d content)
    (hf : First d (content ++ unread) e) (hmax : e + d.length ≤ max) : content.length < max := by
  refine Nat.lt_of_lt_of_le (Nat.lt_of_not_le fun hle => ?_) hmax
  exact hw e (prefix_drop_of_append hf.1 hle)

/-- A message is an object: there is no other value that the flag lets
    pass. -/
theorem parse_segment_eq_ok {segment : List UInt8} (hnul : (0 : UInt8) ∉ segment) {v : Variant R} :
    parse_segment R segment = .ok v ↔ JsonText DEPTH_MAX segment v ∧ v.is_object = true := by
  have hc : cstring segment = segment := by
    rw [cstring, takeWhile_eq_self_iff]
    intro c hc
    simpa using fun h0 : c = 0 => hnul (h0 ▸ hc)
  rw [parse_segment, sd_json_parse_eq_ok, hc]
  cases v with
  | _ => simp [Allowed, MUST_BE_OBJECT, Variant.is_object]

section rejected

/-- The socket will have a number, which is no message, and an empty object,
    each with a NUL after it. -/
def rejected_start : JsonInput where
  setup :=
    { delimiter := none, buffer_max := 64, read_chunk := 16, bounded_reads := false,
      prefer_read := false, input_sensitive := false, allow_fd_passing := false,
      buffer_max_pos := buffer_max_64_pos, read_chunk_pos := read_chunk_16_pos,
      delimiter_nul := no_delimiter_nul }
  connecting := false
  read_disconnected := false
  input_buffer := []
  input_buffer_index := 0
  input_buffer_size := 0
  input_buffer_unscanned := 0
  has_control_buffer := false
  input_fds := []
  unread := [49, 0, 123, 125, 0]
  taken := []
  closed := []

/-- All of it has been read at once. -/
def rejected_read : JsonInput := (json_stream_read (arrived 4) rejected_start).2

/-- The number has been rejected. -/
def rejected_parsed : JsonInput := (json_stream_parse (R := Float) rejected_read).2

theorem rejected_reachable :
    Reachable (framing_system Float) ⟨rejected_parsed, [.err Errno.EINVAL]⟩ := by
  have h0 : Reachable (framing_system Float) ⟨rejected_start, []⟩ :=
    .init ⟨⟨rfl, rfl, rfl, rfl, rfl⟩, rfl⟩
  have h1 : Reachable (framing_system Float) ⟨rejected_read, []⟩ :=
    h0.step (a := .read (arrived 4)) ⟨⟨by decide +kernel, rfl⟩, rfl, fun e he => by
      have hread : (json_stream_read (arrived 4) rejected_start).1 = .ok 1 := by decide +kernel
      cases he⟩
  exact h1.step (a := .parse) ⟨⟨(fun h => by cases h), rfl⟩, rfl⟩

end rejected

end SdCompat.Json
