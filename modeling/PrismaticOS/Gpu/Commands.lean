import Mathlib.Algebra.Ring.Nat
import Mathlib.Logic.Function.Basic
import PrismaticOS.Library.Streams

/-!
# Command buffers

`cmd_buffer_push`, `cmd_buffer_push_ptr` and the `gpu_cmd_*` functions of
`graphics/src/gpu/gpu_backend.c`.

## The model

The memory of a command buffer is its words by index. `realloc` is a parameter, a `Realloc`: it
keeps the old contents, or returns NULL, and then the call writes to address zero, which is the
outcome `none`. Capacity and count are natural numbers: memory does not hold 2⁶² words. A
floating-point number is its 32 bits. A `GpuCall` is a call with its arguments.

## What is proved

* `recorded_eq` — what a sequence of calls records, however the buffer grows.
* `words_eq_iff` — two calls record the same words exactly if they are the same but for the upper
  halves of handles, offsets and sizes.
* `stream_faithful_iff` — the exact condition for a command stream to tell two sequences apart.
* `handles_confused` — two render targets that it does not tell apart.
-/

namespace PrismaticOS.Gpu

open PrismaticOS.Library

/-! ### The buffer -/

/-- A `struct gpu_command_buffer`. -/
structure GpuCommandBuffer where
  /-- What is at `commands`. -/
  commands : ℕ → UInt32
  /-- `capacity`. -/
  capacity : ℕ
  /-- `count`. -/
  count : ℕ

/-- A `realloc` of words. -/
structure Realloc where
  /-- The new contents, of the old ones, how many these are, and how many there are to be. -/
  move : (ℕ → UInt32) → ℕ → ℕ → Option (ℕ → UInt32)
  /-- The old contents are kept. -/
  keeps : ∀ old n m new, move old n m = some new → ∀ i < n, i < m → new i = old i

/-- `cmd_buffer_push`. -/
def cmdBufferPush (realloc : Realloc) (buf : GpuCommandBuffer) (command : UInt32) :
    Option GpuCommandBuffer :=
  if buf.capacity ≤ buf.count then
    (realloc.move buf.commands buf.capacity (buf.capacity * 2)).map fun commands =>
      { commands := Function.update commands buf.count command
        capacity := buf.capacity * 2
        count := buf.count + 1 }
  else some
    { buf with
      commands := Function.update buf.commands buf.count command
      count := buf.count + 1 }

/-- What `cmd_buffer_push_ptr` pushes. -/
def ptrWord (ptr : UInt64) : UInt32 := ptr.toUInt32

/-- One push after the other. -/
def pushAll (realloc : Realloc) (buf : GpuCommandBuffer) (words : List UInt32) :
    Option GpuCommandBuffer :=
  words.foldlM (cmdBufferPush realloc) buf

/-- What `gpu_begin_command_buffer` makes of what `malloc` gives. -/
def gpuBeginCommandBuffer (contents : ℕ → UInt32) : GpuCommandBuffer := ⟨contents, 1024, 0⟩

/-! ### The calls -/

/-- The command types. -/
inductive GpuCommand where
  /-- Render passes. -/
  | beginRenderPass | endRenderPass
  /-- State. -/
  | setPipeline | setVertexBuffer | setIndexBuffer | setViewport | setScissor
  /-- Drawing. -/
  | draw | drawIndexed
  /-- Transfers. -/
  | copyBuffer | copyTexture | barrier

/-- The number of a command type. -/
def GpuCommand.word : GpuCommand → UInt32
  | .beginRenderPass => 0
  | .endRenderPass => 1
  | .setPipeline => 2
  | .setVertexBuffer => 3
  | .setIndexBuffer => 4
  | .setViewport => 5
  | .setScissor => 6
  | .draw => 7
  | .drawIndexed => 8
  | .copyBuffer => 9
  | .copyTexture => 10
  | .barrier => 11

section Recorders

variable (realloc : Realloc) (buf : GpuCommandBuffer)

/-- `gpu_cmd_begin_render_pass`. -/
def gpuCmdBeginRenderPass (renderTarget : UInt64) : Option GpuCommandBuffer :=
  pushAll realloc buf [GpuCommand.beginRenderPass.word, ptrWord renderTarget]

/-- `gpu_cmd_end_render_pass`. -/
def gpuCmdEndRenderPass : Option GpuCommandBuffer :=
  pushAll realloc buf [GpuCommand.endRenderPass.word]

/-- `gpu_cmd_set_pipeline`. -/
def gpuCmdSetPipeline (pipeline : UInt64) : Option GpuCommandBuffer :=
  pushAll realloc buf [GpuCommand.setPipeline.word, ptrWord pipeline]

/-- `gpu_cmd_set_vertex_buffer`. -/
def gpuCmdSetVertexBuffer (slot : UInt32) (buffer offset : UInt64) : Option GpuCommandBuffer :=
  pushAll realloc buf [GpuCommand.setVertexBuffer.word, slot, ptrWord buffer, offset.toUInt32]

/-- `gpu_cmd_set_index_buffer`. -/
def gpuCmdSetIndexBuffer (buffer offset : UInt64) : Option GpuCommandBuffer :=
  pushAll realloc buf [GpuCommand.setIndexBuffer.word, ptrWord buffer, offset.toUInt32]

/-- `gpu_cmd_set_viewport`. -/
def gpuCmdSetViewport (x y width height minDepth maxDepth : UInt32) :
    Option GpuCommandBuffer :=
  pushAll realloc buf
    [GpuCommand.setViewport.word, x, y, width, height, minDepth, maxDepth]

/-- `gpu_cmd_set_scissor`. -/
def gpuCmdSetScissor (x y width height : UInt32) : Option GpuCommandBuffer :=
  pushAll realloc buf [GpuCommand.setScissor.word, x, y, width, height]

/-- `gpu_cmd_draw`. -/
def gpuCmdDraw (vertexCount instanceCount firstVertex firstInstance : UInt32) :
    Option GpuCommandBuffer :=
  pushAll realloc buf
    [GpuCommand.draw.word, vertexCount, instanceCount, firstVertex, firstInstance]

/-- `gpu_cmd_draw_indexed`. -/
def gpuCmdDrawIndexed (indexCount instanceCount firstIndex : UInt32) (vertexOffset : Int32)
    (firstInstance : UInt32) : Option GpuCommandBuffer :=
  pushAll realloc buf [GpuCommand.drawIndexed.word, indexCount, instanceCount, firstIndex,
    vertexOffset.toUInt32, firstInstance]

/-- `gpu_cmd_copy_buffer`. -/
def gpuCmdCopyBuffer (src dst srcOffset dstOffset size : UInt64) : Option GpuCommandBuffer :=
  pushAll realloc buf [GpuCommand.copyBuffer.word, ptrWord src, ptrWord dst, srcOffset.toUInt32,
    dstOffset.toUInt32, size.toUInt32]

/-- `gpu_cmd_copy_texture`. -/
def gpuCmdCopyTexture (src dst : UInt64) (srcLevel dstLevel : UInt32) :
    Option GpuCommandBuffer :=
  pushAll realloc buf
    [GpuCommand.copyTexture.word, ptrWord src, ptrWord dst, srcLevel, dstLevel]

/-- `gpu_cmd_barrier`. -/
def gpuCmdBarrier : Option GpuCommandBuffer := pushAll realloc buf [GpuCommand.barrier.word]

end Recorders

/-- A call of a `gpu_cmd_*` function. -/
inductive GpuCall where
  /-- `gpu_cmd_begin_render_pass`. -/
  | beginRenderPass (renderTarget : UInt64)
  /-- `gpu_cmd_end_render_pass`. -/
  | endRenderPass
  /-- `gpu_cmd_set_pipeline`. -/
  | setPipeline (pipeline : UInt64)
  /-- `gpu_cmd_set_vertex_buffer`. -/
  | setVertexBuffer (slot : UInt32) (buffer offset : UInt64)
  /-- `gpu_cmd_set_index_buffer`. -/
  | setIndexBuffer (buffer offset : UInt64)
  /-- `gpu_cmd_set_viewport`. -/
  | setViewport (x y width height minDepth maxDepth : UInt32)
  /-- `gpu_cmd_set_scissor`. -/
  | setScissor (x y width height : UInt32)
  /-- `gpu_cmd_draw`. -/
  | draw (vertexCount instanceCount firstVertex firstInstance : UInt32)
  /-- `gpu_cmd_draw_indexed`. -/
  | drawIndexed (indexCount instanceCount firstIndex : UInt32) (vertexOffset : Int32)
    (firstInstance : UInt32)
  /-- `gpu_cmd_copy_buffer`. -/
  | copyBuffer (src dst srcOffset dstOffset size : UInt64)
  /-- `gpu_cmd_copy_texture`. -/
  | copyTexture (src dst : UInt64) (srcLevel dstLevel : UInt32)
  /-- `gpu_cmd_barrier`. -/
  | barrier

/-- A call is made. -/
def GpuCall.record (realloc : Realloc) (buf : GpuCommandBuffer) :
    GpuCall → Option GpuCommandBuffer
  | .beginRenderPass renderTarget => gpuCmdBeginRenderPass realloc buf renderTarget
  | .endRenderPass => gpuCmdEndRenderPass realloc buf
  | .setPipeline pipeline => gpuCmdSetPipeline realloc buf pipeline
  | .setVertexBuffer slot buffer offset => gpuCmdSetVertexBuffer realloc buf slot buffer offset
  | .setIndexBuffer buffer offset => gpuCmdSetIndexBuffer realloc buf buffer offset
  | .setViewport x y width height minDepth maxDepth =>
    gpuCmdSetViewport realloc buf x y width height minDepth maxDepth
  | .setScissor x y width height => gpuCmdSetScissor realloc buf x y width height
  | .draw vertexCount instanceCount firstVertex firstInstance =>
    gpuCmdDraw realloc buf vertexCount instanceCount firstVertex firstInstance
  | .drawIndexed indexCount instanceCount firstIndex vertexOffset firstInstance =>
    gpuCmdDrawIndexed realloc buf indexCount instanceCount firstIndex vertexOffset firstInstance
  | .copyBuffer src dst srcOffset dstOffset size =>
    gpuCmdCopyBuffer realloc buf src dst srcOffset dstOffset size
  | .copyTexture src dst srcLevel dstLevel =>
    gpuCmdCopyTexture realloc buf src dst srcLevel dstLevel
  | .barrier => gpuCmdBarrier realloc buf

/-- A sequence of calls on a new command buffer. -/
def recordAll (realloc : Realloc) (contents : ℕ → UInt32) (calls : List GpuCall) :
    Option GpuCommandBuffer :=
  calls.foldlM (GpuCall.record realloc) (gpuBeginCommandBuffer contents)

/-- `commands[0..count)`. -/
def GpuCommandBuffer.recorded (buf : GpuCommandBuffer) : List UInt32 :=
  (List.range buf.count).map buf.commands

/-! ### What is recorded -/

/-- The words of a call. -/
def GpuCall.words : GpuCall → List UInt32
  | .beginRenderPass renderTarget => [0, renderTarget.toUInt32]
  | .endRenderPass => [1]
  | .setPipeline pipeline => [2, pipeline.toUInt32]
  | .setVertexBuffer slot buffer offset => [3, slot, buffer.toUInt32, offset.toUInt32]
  | .setIndexBuffer buffer offset => [4, buffer.toUInt32, offset.toUInt32]
  | .setViewport x y width height minDepth maxDepth => [5, x, y, width, height, minDepth, maxDepth]
  | .setScissor x y width height => [6, x, y, width, height]
  | .draw vertexCount instanceCount firstVertex firstInstance =>
    [7, vertexCount, instanceCount, firstVertex, firstInstance]
  | .drawIndexed indexCount instanceCount firstIndex vertexOffset firstInstance =>
    [8, indexCount, instanceCount, firstIndex, vertexOffset.toUInt32, firstInstance]
  | .copyBuffer src dst srcOffset dstOffset size =>
    [9, src.toUInt32, dst.toUInt32, srcOffset.toUInt32, dstOffset.toUInt32, size.toUInt32]
  | .copyTexture src dst srcLevel dstLevel =>
    [10, src.toUInt32, dst.toUInt32, srcLevel, dstLevel]
  | .barrier => [11]

theorem record_eq (realloc : Realloc) (buf : GpuCommandBuffer) (call : GpuCall) :
    call.record realloc buf = pushAll realloc buf call.words := by
  cases call <;> rfl

/-- A buffer that has these words, and memory for them. -/
structure GpuCommandBuffer.Has (buf : GpuCommandBuffer) (words : List UInt32) : Prop where
  /-- Twice the memory is more. -/
  capacity_pos : 0 < buf.capacity
  /-- The words are within the memory. -/
  count_le : buf.count ≤ buf.capacity
  /-- The words. -/
  recorded_eq : buf.recorded = words

theorem recorded_update (commands : ℕ → UInt32) (capacity count : ℕ) (word : UInt32) :
    GpuCommandBuffer.recorded
        ⟨Function.update commands count word, capacity, count + 1⟩ =
      (List.range count).map commands ++ [word] := by
  rw [GpuCommandBuffer.recorded, List.range_succ, List.map_append, List.map_singleton]
  dsimp only
  rw [Function.update_self]
  congr 1
  exact List.map_congr_left fun i hi =>
    Function.update_of_ne (Nat.ne_of_lt (List.mem_range.mp hi)) word commands

/-- One word more. -/
theorem push_has {realloc : Realloc} {buf buf' : GpuCommandBuffer} {words : List UInt32}
    {word : UInt32} (h : buf.Has words) (hpush : cmdBufferPush realloc buf word = some buf') :
    buf'.Has (words ++ [word]) := by
  obtain ⟨hpos, hcount, hwords⟩ := h
  rw [cmdBufferPush] at hpush
  split_ifs at hpush with hfull
  · -- the buffer grows, and what it had is kept
    obtain ⟨commands, hmove, rfl⟩ := Option.map_eq_some_iff.mp hpush
    have hkept : (List.range buf.count).map commands = (List.range buf.count).map buf.commands :=
      List.map_congr_left fun i hi => by
        have hlt := List.mem_range.mp hi
        exact realloc.keeps _ _ _ _ hmove i (by omega) (by omega)
    refine ⟨by dsimp only; omega, by dsimp only; omega, ?_⟩
    rw [recorded_update, hkept, ← hwords, GpuCommandBuffer.recorded]
  · cases hpush
    refine ⟨hpos, by dsimp only; omega, ?_⟩
    rw [recorded_update, ← hwords, GpuCommandBuffer.recorded]

/-- Some words more. -/
theorem pushAll_has {realloc : Realloc} {buf buf' : GpuCommandBuffer} {words more : List UInt32}
    (h : buf.Has words) (hpush : pushAll realloc buf more = some buf') :
    buf'.Has (words ++ more) := by
  induction more generalizing buf words with
  | nil =>
    cases hpush
    rwa [List.append_nil]
  | cons word more ih =>
    rw [pushAll, List.foldlM_cons] at hpush
    obtain ⟨buf₁, hfirst, hrest⟩ := Option.bind_eq_some_iff.mp hpush
    rw [List.append_cons]
    exact ih (push_has h hfirst) hrest

/-- Some calls more. -/
theorem calls_has {realloc : Realloc} {buf buf' : GpuCommandBuffer} {words : List UInt32}
    {calls : List GpuCall} (h : buf.Has words)
    (hcalls : calls.foldlM (GpuCall.record realloc) buf = some buf') :
    buf'.Has (words ++ calls.flatMap GpuCall.words) := by
  induction calls generalizing buf words with
  | nil =>
    cases hcalls
    rwa [List.flatMap_nil, List.append_nil]
  | cons call calls ih =>
    rw [List.foldlM_cons] at hcalls
    obtain ⟨buf₁, hfirst, hrest⟩ := Option.bind_eq_some_iff.mp hcalls
    rw [record_eq] at hfirst
    rw [List.flatMap_cons, ← List.append_assoc]
    exact ih (pushAll_has h hfirst) hrest

/-- **What is recorded** are the words of the calls, one after the other. -/
theorem recorded_eq {realloc : Realloc} {contents : ℕ → UInt32} {calls : List GpuCall}
    {buf : GpuCommandBuffer} (h : recordAll realloc contents calls = some buf) :
    buf.recorded = calls.flatMap GpuCall.words := by
  have hnew : (gpuBeginCommandBuffer contents).Has [] :=
    ⟨Nat.zero_lt_succ _, Nat.zero_le _, rfl⟩
  rw [(calls_has hnew h).recorded_eq, List.nil_append]

/-! ### What the words tell -/

/-- The lower half. -/
def low (x : UInt64) : UInt64 := x.toUInt32.toUInt64

/-- A call without the upper halves of its arguments of 64 bits. -/
def GpuCall.narrow : GpuCall → GpuCall
  | .beginRenderPass renderTarget => .beginRenderPass (low renderTarget)
  | .endRenderPass => .endRenderPass
  | .setPipeline pipeline => .setPipeline (low pipeline)
  | .setVertexBuffer slot buffer offset => .setVertexBuffer slot (low buffer) (low offset)
  | .setIndexBuffer buffer offset => .setIndexBuffer (low buffer) (low offset)
  | .setViewport x y width height minDepth maxDepth =>
    .setViewport x y width height minDepth maxDepth
  | .setScissor x y width height => .setScissor x y width height
  | .draw vertexCount instanceCount firstVertex firstInstance =>
    .draw vertexCount instanceCount firstVertex firstInstance
  | .drawIndexed indexCount instanceCount firstIndex vertexOffset firstInstance =>
    .drawIndexed indexCount instanceCount firstIndex vertexOffset firstInstance
  | .copyBuffer src dst srcOffset dstOffset size =>
    .copyBuffer (low src) (low dst) (low srcOffset) (low dstOffset) (low size)
  | .copyTexture src dst srcLevel dstLevel => .copyTexture (low src) (low dst) srcLevel dstLevel
  | .barrier => .barrier

/-- A reader of the words of a call. -/
def GpuCall.ofWords (words : List UInt32) : GpuCall :=
  let arg (i : ℕ) : UInt32 := words.getD i 0
  let wide (i : ℕ) : UInt64 := (arg i).toUInt64
  if arg 0 = 0 then .beginRenderPass (wide 1)
  else if arg 0 = 1 then .endRenderPass
  else if arg 0 = 2 then .setPipeline (wide 1)
  else if arg 0 = 3 then .setVertexBuffer (arg 1) (wide 2) (wide 3)
  else if arg 0 = 4 then .setIndexBuffer (wide 1) (wide 2)
  else if arg 0 = 5 then .setViewport (arg 1) (arg 2) (arg 3) (arg 4) (arg 5) (arg 6)
  else if arg 0 = 6 then .setScissor (arg 1) (arg 2) (arg 3) (arg 4)
  else if arg 0 = 7 then .draw (arg 1) (arg 2) (arg 3) (arg 4)
  else if arg 0 = 8 then .drawIndexed (arg 1) (arg 2) (arg 3) (arg 4).toInt32 (arg 5)
  else if arg 0 = 9 then .copyBuffer (wide 1) (wide 2) (wide 3) (wide 4) (wide 5)
  else if arg 0 = 10 then .copyTexture (wide 1) (wide 2) (arg 3) (arg 4)
  else .barrier

/-- The reader finds the call, but for the upper halves. -/
theorem ofWords_words (call : GpuCall) : GpuCall.ofWords call.words = call.narrow := by
  cases call <;> rfl

theorem words_narrow (call : GpuCall) : call.narrow.words = call.words := by
  have hlow (x : UInt64) : (low x).toUInt32 = x.toUInt32 := UInt32.toUInt32_toUInt64 _
  cases call <;> simp only [GpuCall.narrow, GpuCall.words, hlow]

/-- **Two calls with the same words** are the same but for the upper halves. -/
theorem words_eq_iff (a b : GpuCall) : a.words = b.words ↔ a.narrow = b.narrow := by
  constructor
  · intro h
    rw [← ofWords_words, h, ofWords_words]
  · intro h
    rw [← words_narrow, h, words_narrow]

/-- The arguments of 64 bits. -/
def GpuCall.wideArgs : GpuCall → List UInt64
  | .beginRenderPass renderTarget => [renderTarget]
  | .setPipeline pipeline => [pipeline]
  | .setVertexBuffer _ buffer offset => [buffer, offset]
  | .setIndexBuffer buffer offset => [buffer, offset]
  | .copyBuffer src dst srcOffset dstOffset size => [src, dst, srcOffset, dstOffset, size]
  | .copyTexture src dst _ _ => [src, dst]
  | _ => []

/-- A call whose arguments have 32 bits is recorded as it is. -/
theorem narrow_of_small {call : GpuCall} (h : ∀ x ∈ call.wideArgs, x.toNat < 2 ^ 32) :
    call.narrow = call := by
  have hlow {x : UInt64} (hx : x.toNat < 2 ^ 32) : low x = x := by
    rw [← UInt64.toNat_inj, low, UInt32.toNat_toUInt64, UInt64.toNat_toUInt32]
    exact Nat.mod_eq_of_lt hx
  cases call <;> simp_all [GpuCall.wideArgs, GpuCall.narrow]

/-- How many words follow the number of a command. -/
def argCount (word : UInt32) : ℕ := [1, 0, 1, 3, 2, 6, 4, 4, 5, 5, 4, 0].getD word.toNat 0

theorem words_tellsLength : TellsLength GpuCall.words argCount := by
  intro call
  cases call <;> exact ⟨_, _, rfl, rfl⟩

/-- **The command stream** tells two sequences of calls apart exactly if they do not differ only
in the upper halves of handles, offsets and sizes. -/
theorem stream_faithful_iff (realloc₁ realloc₂ : Realloc) (contents₁ contents₂ : ℕ → UInt32)
    (calls₁ calls₂ : List GpuCall) (buf₁ buf₂ : GpuCommandBuffer)
    (h₁ : recordAll realloc₁ contents₁ calls₁ = some buf₁)
    (h₂ : recordAll realloc₂ contents₂ calls₂ = some buf₂) :
    (buf₁.recorded = buf₂.recorded → calls₁ = calls₂) ↔
      (calls₁.map GpuCall.narrow = calls₂.map GpuCall.narrow → calls₁ = calls₂) := by
  rw [recorded_eq h₁, recorded_eq h₂, flatMap_eq_iff words_tellsLength words_eq_iff]

/-- A `realloc` that finds room where the words are. -/
def inPlace : Realloc := ⟨fun old _ _ => some old, fun _ _ _ _ h _ _ _ => by cases h; rfl⟩

/-- Two sequences of one call. -/
theorem stream_faithful_barrier :
    ∃ buf₁ buf₂, (GpuCommandBuffer.recorded buf₁ = GpuCommandBuffer.recorded buf₂ →
        [GpuCall.barrier] = [GpuCall.endRenderPass]) ↔
      ([GpuCall.barrier].map GpuCall.narrow = [GpuCall.endRenderPass].map GpuCall.narrow →
        [GpuCall.barrier] = [GpuCall.endRenderPass]) :=
  ⟨_, _, stream_faithful_iff inPlace inPlace (fun _ => 0) (fun _ => 0) [.barrier] [.endRenderPass]
    _ _ rfl rfl⟩

/-- **Handles are confused**: the render targets at 0 and at 2³² are recorded the same. -/
theorem handles_confused :
    ∃ buf₁ buf₂, recordAll inPlace (fun _ => 0) [.beginRenderPass 0] = some buf₁ ∧
      recordAll inPlace (fun _ => 0) [.beginRenderPass 0x100000000] = some buf₂ ∧
      buf₁.recorded = buf₂.recorded ∧
      [GpuCall.beginRenderPass 0] ≠ [GpuCall.beginRenderPass 0x100000000] := by
  refine ⟨_, _, rfl, rfl, rfl, fun h => ?_⟩
  have heq := GpuCall.beginRenderPass.inj (List.cons.inj h).1
  exact absurd heq (by decide)

end PrismaticOS.Gpu
