import PrismaticOS.Gpu.Commands
import PrismaticOS.Gpu.Textures
import PrismaticOS.Library.Ownership
import PrismaticOS.Library.Runs

/-!
# The resources of a device

The functions of `graphics/src/gpu/gpu_backend.c` that make, map and destroy buffers, textures,
pipelines, samplers, fences and command buffers, over whole runs.

## The model

A resource is what is at the address of its structure. `heap` has the blocks that `malloc` returned
and that were not freed; `free` of anything else, and a pointer to anything but a resource of the
right kind, is `none`. What `malloc` and `realloc` return is part of the call. A `gpu_cmd_` function
pushes some words, and `pushCommand` is one of them. The bytes of buffers and textures, the
descriptors of pipelines and samplers and the messages are left out.

A call is `GpuCallOk` if its argument is `NULL`, where the function tests for it, or a resource that
was not destroyed, and if `malloc` and `realloc` return blocks that are not in use.

## What is proved

* `gpuCall_change` — what a call can do to the resources and the heap.
* `heap_owned` — in every run each block of the heap belongs to one resource, and none is freed twice.
* `ids_distinct` — two resources have one `id` only after 2³² calls.
* `map_exclusive` — what is mapped is not mapped again before it is unmapped.
-/

namespace PrismaticOS.Gpu

open PrismaticOS.Library

/-! ### Resources -/

/-- A `struct gpu_buffer`. -/
structure GpuBuffer where
  /-- `id`. -/
  id : UInt32
  /-- `size`. -/
  size : UInt64
  /-- `usage`. -/
  usage : UInt32
  /-- `data`. -/
  data : UInt64
  /-- `mapped`. -/
  mapped : Bool

/-- A `struct gpu_fence`. -/
structure GpuFence where
  /-- `id`. -/
  id : UInt32
  /-- `signaled`. -/
  signaled : Bool

/-- What is at an address. -/
inductive GpuResource where
  /-- A `gpu_buffer_t`. -/
  | buffer (b : GpuBuffer)
  /-- A `gpu_texture_t`. -/
  | texture (t : GpuTexture)
  /-- A `gpu_pipeline_t`. -/
  | pipeline (id : UInt32)
  /-- A `gpu_sampler_t`. -/
  | sampler (id : UInt32)
  /-- A `gpu_fence_t`. -/
  | fence (f : GpuFence)
  /-- A `gpu_command_buffer_t`, with the address of its commands. -/
  | commands (address : UInt64) (buf : GpuCommandBuffer)

/-- The types of resources. -/
inductive GpuKind where
  | buffer | texture | pipeline | sampler | fence | commands
  deriving DecidableEq

namespace GpuResource

/-- Its type. -/
def kind : GpuResource → GpuKind
  | buffer _ => .buffer
  | texture _ => .texture
  | pipeline _ => .pipeline
  | sampler _ => .sampler
  | fence _ => .fence
  | commands _ _ => .commands

/-- Its `id`; a command buffer has none. -/
def id : GpuResource → Option UInt32
  | buffer b => some b.id
  | texture t => some t.id
  | pipeline id => some id
  | sampler id => some id
  | fence f => some f.id
  | commands _ _ => none

/-- The blocks of a resource at an address, in the order in which they are freed. -/
def blocks (address : UInt64) : GpuResource → List UInt64
  | buffer b => [b.data, address]
  | texture t => [t.data, address]
  | pipeline _ => [address]
  | sampler _ => [address]
  | fence _ => [address]
  | commands data _ => [data, address]

/-- `mapped`. -/
def mapped : GpuResource → Bool
  | buffer b => b.mapped
  | texture t => t.mapped
  | _ => false

end GpuResource

/-- The global state, the heap and the resources. -/
structure GpuDevice extends GpuState where
  /-- `current_frame_index`. -/
  currentFrameIndex : UInt32
  /-- The blocks in use. -/
  heap : Finset UInt64
  /-- What is at an address. -/
  resources : UInt64 → Option GpuResource

/-- The device before `gpu_init`. -/
def GpuDevice.initial : GpuDevice := ⟨⟨1, false⟩, 0, ∅, fun _ => none⟩

/-- A `gpu_buffer_desc_t`. -/
structure GpuBufferDesc where
  /-- `size`. -/
  size : UInt64
  /-- `usage`. -/
  usage : UInt32

/-! ### The functions -/

namespace GpuDevice

variable (d : GpuDevice)

/-- `malloc` returned a block. -/
def allocate (block : UInt64) : GpuDevice := { d with heap := insert block d.heap }

/-- What is at an address is written. -/
def put (address : UInt64) (r : Option GpuResource) : GpuDevice :=
  { d with resources := Function.update d.resources address r }

/-- `next_resource_id++`. -/
def takeId : GpuDevice := { d with nextResourceId := d.nextResourceId + 1 }

/-- The blocks of a resource are freed. -/
def release (address : UInt64) (r : GpuResource) : Option GpuDevice :=
  (freeAll d.heap (r.blocks address)).map fun heap => { d with heap := heap }.put address none

/-- What the functions do that destroy a resource. -/
def destroy (kind : GpuKind) (address : UInt64) : Option GpuDevice :=
  if address = 0 then some d
  else (d.resources address).bind fun r => if r.kind = kind then d.release address r else none

/-- The second half of a function that makes a structure with data: the structure is freed if there
is no memory for the data. -/
def withData (address : UInt64) (malloc₂ : Option UInt64) (r : UInt64 → GpuResource) :
    Option (GpuDevice × UInt64) :=
  match malloc₂ with
  | none => (freeBlock d.heap address).map fun heap => ({ d with heap := heap }, 0)
  | some data => some ((d.allocate data).put address (some (r data)), address)

/-- `gpu_init`: whether it returns 0. -/
def gpuInit : GpuDevice × Bool :=
  if d.gpuInitialized then (d, false)
  else ({ d with gpuInitialized := true, currentFrameIndex := 0 }, true)

/-- `gpu_shutdown`. -/
def gpuShutdown : GpuDevice := { d with gpuInitialized := false }

/-- `gpu_create_buffer`, without a descriptor if it is `NULL`. -/
def gpuCreateBuffer (desc : Option GpuBufferDesc) (malloc₁ malloc₂ : Option UInt64) :
    Option (GpuDevice × UInt64) :=
  match desc, d.gpuInitialized, malloc₁ with
  | some desc, true, some address =>
    (d.allocate address).takeId.withData address malloc₂ fun data =>
      .buffer ⟨d.nextResourceId, desc.size, desc.usage, data, false⟩
  | _, _, _ => some (d, 0)

/-- `gpu_destroy_buffer`. -/
def gpuDestroyBuffer (buffer : UInt64) : Option GpuDevice := d.destroy .buffer buffer

/-- `gpu_map_buffer`. -/
def gpuMapBuffer (buffer : UInt64) : Option (GpuDevice × UInt64) :=
  if buffer = 0 then some (d, 0)
  else
    match d.resources buffer with
    | some (.buffer b) =>
      if b.mapped then some (d, 0)
      else some (d.put buffer (some (.buffer { b with mapped := true })), b.data)
    | _ => none

/-- `gpu_unmap_buffer`. -/
def gpuUnmapBuffer (buffer : UInt64) : Option GpuDevice :=
  if buffer = 0 then some d
  else
    match d.resources buffer with
    | some (.buffer b) => some (d.put buffer (some (.buffer { b with mapped := false })))
    | _ => none

/-- `gpu_create_texture`. -/
def createTexture (desc : Option GpuTextureDesc) (malloc₁ malloc₂ : Option UInt64) :
    Option (GpuDevice × UInt64) :=
  match desc, d.gpuInitialized, malloc₁ with
  | some desc, true, some address =>
    (d.allocate address).takeId.withData address malloc₂ fun data =>
      .texture
        { id := d.nextResourceId
          width := desc.width
          height := desc.height
          depth := desc.depth
          mipLevels := desc.mipLevels
          format := desc.format
          usage := desc.usage
          data := data
          mapped := false }
  | _, _, _ => some (d, 0)

/-- `gpu_destroy_texture`. -/
def gpuDestroyTexture (texture : UInt64) : Option GpuDevice := d.destroy .texture texture

/-- `gpu_map_texture`. -/
def mapTexture (texture : UInt64) (level arraySlice : UInt32) : Option (GpuDevice × UInt64) :=
  if texture = 0 then some (d, 0)
  else
    match d.resources texture with
    | some (.texture t) =>
      match gpuMapTexture t level arraySlice with
      | none => some (d, 0)
      | some (data, t) => some (d.put texture (some (.texture t)), data)
    | _ => none

/-- `gpu_unmap_texture`. -/
def unmapTexture (texture : UInt64) : Option GpuDevice :=
  if texture = 0 then some d
  else
    match d.resources texture with
    | some (.texture t) => some (d.put texture (some (.texture (gpuUnmapTexture t))))
    | _ => none

/-- `gpu_create_pipeline` and `gpu_create_sampler`: a structure without data. -/
def createPlain (given : Bool) (malloc₁ : Option UInt64) (r : UInt32 → GpuResource) :
    GpuDevice × UInt64 :=
  match given, d.gpuInitialized, malloc₁ with
  | true, true, some address =>
    ((d.allocate address).takeId.put address (some (r d.nextResourceId)), address)
  | _, _, _ => (d, 0)

/-- `gpu_create_pipeline`. -/
def gpuCreatePipeline (given : Bool) (malloc₁ : Option UInt64) : GpuDevice × UInt64 :=
  d.createPlain given malloc₁ .pipeline

/-- `gpu_destroy_pipeline`. -/
def gpuDestroyPipeline (pipeline : UInt64) : Option GpuDevice := d.destroy .pipeline pipeline

/-- `gpu_create_sampler`. -/
def gpuCreateSampler (given : Bool) (malloc₁ : Option UInt64) : GpuDevice × UInt64 :=
  d.createPlain given malloc₁ .sampler

/-- `gpu_destroy_sampler`. -/
def gpuDestroySampler (sampler : UInt64) : Option GpuDevice := d.destroy .sampler sampler

/-- `gpu_begin_command_buffer`, with what is in the memory for the commands. -/
def beginCommandBuffer (malloc₁ malloc₂ : Option UInt64) (contents : ℕ → UInt32) :
    Option (GpuDevice × UInt64) :=
  match d.gpuInitialized, malloc₁ with
  | true, some address =>
    (d.allocate address).withData address malloc₂ fun data =>
      .commands data (gpuBeginCommandBuffer contents)
  | _, _ => some (d, 0)

/-- `cmd_buffer_push`: `realloc` frees the commands and returns other memory, or the same. -/
def pushCommand (realloc : Realloc) (cmdBuffer : UInt64) (command : UInt32)
    (moved : Option UInt64) : Option GpuDevice :=
  match d.resources cmdBuffer with
  | some (.commands data buf) =>
    (cmdBufferPush realloc buf command).bind fun buf' =>
      if buf.capacity ≤ buf.count then
        moved.bind fun data' =>
          (freeBlock d.heap data).map fun heap =>
            ({ d with heap := heap }.allocate data').put cmdBuffer (some (.commands data' buf'))
      else some (d.put cmdBuffer (some (.commands data buf')))
  | _ => none

/-- The fence that `gpu_submit_command_buffer` makes, if it is asked for one. -/
def makeFence (signalFence : Option (Option UInt64)) : GpuDevice × UInt64 :=
  match signalFence with
  | some (some address) =>
    ((d.allocate address).takeId.put address (some (.fence ⟨d.nextResourceId, false⟩)), address)
  | _ => (d, 0)

/-- `gpu_submit_command_buffer`: the fence, and the command buffer is freed. -/
def gpuSubmitCommandBuffer (cmdBuffer : UInt64) (signalFence : Option (Option UInt64)) :
    Option (GpuDevice × UInt64) :=
  if cmdBuffer = 0 then some (d, 0)
  else
    match d.resources cmdBuffer with
    | some (.commands data buf) =>
      ((d.makeFence signalFence).1.release cmdBuffer (.commands data buf)).map fun d' =>
        (d', (d.makeFence signalFence).2)
    | _ => none

/-- `gpu_wait_fence`. -/
def gpuWaitFence (fence : UInt64) : Option GpuDevice :=
  if fence = 0 then some d
  else
    match d.resources fence with
    | some (.fence f) => some (d.put fence (some (.fence { f with signaled := true })))
    | _ => none

/-- `gpu_destroy_fence`. -/
def gpuDestroyFence (fence : UInt64) : Option GpuDevice := d.destroy .fence fence

/-- `gpu_present`. -/
def gpuPresent (texture : UInt64) : Option GpuDevice :=
  if texture = 0 then some d
  else
    match d.resources texture with
    | some (.texture _) => some { d with currentFrameIndex := d.currentFrameIndex + 1 }
    | _ => none

end GpuDevice

/-- A call. -/
inductive DeviceCall where
  /-- The device. -/
  | init | shutdown
  /-- Buffers. -/
  | createBuffer (desc : Option GpuBufferDesc) (malloc₁ malloc₂ : Option UInt64)
  | destroyBuffer (buffer : UInt64) | mapBuffer (buffer : UInt64) | unmapBuffer (buffer : UInt64)
  /-- Textures. -/
  | createTexture (desc : Option GpuTextureDesc) (malloc₁ malloc₂ : Option UInt64)
  | destroyTexture (texture : UInt64)
  | mapTexture (texture : UInt64) (level arraySlice : UInt32) | unmapTexture (texture : UInt64)
  /-- Pipelines and samplers. -/
  | createPipeline (given : Bool) (malloc₁ : Option UInt64) | destroyPipeline (pipeline : UInt64)
  | createSampler (given : Bool) (malloc₁ : Option UInt64) | destroySampler (sampler : UInt64)
  /-- Command buffers; `gpu_end_command_buffer` does nothing. -/
  | beginCommandBuffer (malloc₁ malloc₂ : Option UInt64) (contents : ℕ → UInt32)
  | pushCommand (cmdBuffer : UInt64) (command : UInt32) (moved : Option UInt64)
  | endCommandBuffer (cmdBuffer : UInt64)
  | submitCommandBuffer (cmdBuffer : UInt64) (signalFence : Option (Option UInt64))
  /-- Fences. -/
  | waitFence (fence : UInt64) | destroyFence (fence : UInt64)
  /-- A texture is shown. -/
  | present (texture : UInt64)

/-- What a call leaves, and the pointer that it returns, if it returns one. -/
def gpuCall (realloc : Realloc) (d : GpuDevice) : DeviceCall → Option (GpuDevice × UInt64)
  | .init => some (d.gpuInit.1, 0)
  | .shutdown => some (d.gpuShutdown, 0)
  | .createBuffer desc malloc₁ malloc₂ => d.gpuCreateBuffer desc malloc₁ malloc₂
  | .destroyBuffer buffer => (d.gpuDestroyBuffer buffer).map (·, 0)
  | .mapBuffer buffer => d.gpuMapBuffer buffer
  | .unmapBuffer buffer => (d.gpuUnmapBuffer buffer).map (·, 0)
  | .createTexture desc malloc₁ malloc₂ => d.createTexture desc malloc₁ malloc₂
  | .destroyTexture texture => (d.gpuDestroyTexture texture).map (·, 0)
  | .mapTexture texture level arraySlice => d.mapTexture texture level arraySlice
  | .unmapTexture texture => (d.unmapTexture texture).map (·, 0)
  | .createPipeline given malloc₁ => some (d.gpuCreatePipeline given malloc₁)
  | .destroyPipeline pipeline => (d.gpuDestroyPipeline pipeline).map (·, 0)
  | .createSampler given malloc₁ => some (d.gpuCreateSampler given malloc₁)
  | .destroySampler sampler => (d.gpuDestroySampler sampler).map (·, 0)
  | .beginCommandBuffer malloc₁ malloc₂ contents => d.beginCommandBuffer malloc₁ malloc₂ contents
  | .pushCommand cmdBuffer command moved => (d.pushCommand realloc cmdBuffer command moved).map (·, 0)
  | .endCommandBuffer _ => some (d, 0)
  | .submitCommandBuffer cmdBuffer signalFence => d.gpuSubmitCommandBuffer cmdBuffer signalFence
  | .waitFence fence => (d.gpuWaitFence fence).map (·, 0)
  | .destroyFence fence => (d.gpuDestroyFence fence).map (·, 0)
  | .present texture => (d.gpuPresent texture).map (·, 0)

/-- What a call leaves. -/
def gpuStep (realloc : Realloc) (d : GpuDevice) (c : DeviceCall) : Option GpuDevice :=
  (gpuCall realloc d c).map Prod.fst

/-! ### Calls that are allowed -/

/-- A pointer is `NULL`, or to a resource of the kind. -/
def GpuDevice.Given (d : GpuDevice) (kind : GpuKind) (address : UInt64) : Prop :=
  address = 0 ∨ ∃ r, d.resources address = some r ∧ r.kind = kind

/-- What `malloc` returns is not in use. -/
def Fresh (heap : Finset UInt64) (block : Option UInt64) : Prop := ∀ x ∈ block, x ∉ heap ∧ x ≠ 0

/-- Two calls of `malloc`. -/
def FreshTwo (heap : Finset UInt64) (malloc₁ malloc₂ : Option UInt64) : Prop :=
  Fresh heap malloc₁ ∧ Fresh (heap ∪ malloc₁.toFinset) malloc₂

/-- The pointers are `NULL` or to resources, and new blocks are not in use. -/
def GpuCallOk (realloc : Realloc) (d : GpuDevice) : DeviceCall → Prop
  | .init | .shutdown | .endCommandBuffer _ => True
  | .createBuffer _ malloc₁ malloc₂ => FreshTwo d.heap malloc₁ malloc₂
  | .createTexture _ malloc₁ malloc₂ => FreshTwo d.heap malloc₁ malloc₂
  | .beginCommandBuffer malloc₁ malloc₂ _ => FreshTwo d.heap malloc₁ malloc₂
  | .createPipeline _ malloc₁ | .createSampler _ malloc₁ => Fresh d.heap malloc₁
  | .destroyBuffer buffer | .mapBuffer buffer | .unmapBuffer buffer => d.Given .buffer buffer
  | .destroyTexture texture | .mapTexture texture _ _ | .unmapTexture texture | .present texture =>
    d.Given .texture texture
  | .destroyPipeline pipeline => d.Given .pipeline pipeline
  | .destroySampler sampler => d.Given .sampler sampler
  | .waitFence fence | .destroyFence fence => d.Given .fence fence
  | .submitCommandBuffer cmdBuffer signalFence =>
    d.Given .commands cmdBuffer ∧ ∀ malloc ∈ signalFence, Fresh d.heap malloc
  | .pushCommand cmdBuffer _ moved =>
    -- there is no test for `NULL`, and none for what `realloc` returns
    ∃ data buf, d.resources cmdBuffer = some (.commands data buf) ∧
      (buf.capacity ≤ buf.count →
        (realloc.move buf.commands buf.capacity (buf.capacity * 2)).isSome = true ∧
          moved.isSome = true ∧ Fresh (d.heap.erase data) moved)

/-! ### What a call can do -/

/-- The blocks of what is at an address. -/
def GpuDevice.owned (d : GpuDevice) (address : UInt64) : List UInt64 :=
  (d.resources address).elim [] (GpuResource.blocks address)

/-- A call that unmaps or destroys what is at an address. -/
def DeviceCall.GivesUp (address : UInt64) : DeviceCall → Prop
  | .unmapBuffer a | .unmapTexture a | .destroyBuffer a | .destroyTexture a => a = address
  | _ => False

/-- What can happen to the resources, the heap and the next `id`. -/
inductive GpuChange (c : DeviceCall) (d : GpuDevice) : GpuDevice → Prop where
  /-- Nothing, but for an `id` that is not used. -/
  | same {d'} : d'.resources = d.resources → d'.heap = d.heap →
      d'.nextResourceId = d.nextResourceId ∨ d'.nextResourceId = d.nextResourceId + 1 →
      GpuChange c d d'
  /-- A resource is made of new blocks, with the next `id` or without one. -/
  | new {d'} (a : UInt64) (r : GpuResource) : (r.blocks a).Nodup → (∀ x ∈ r.blocks a, x ∉ d.heap) →
      d'.resources = Function.update d.resources a (some r) →
      (∀ x, x ∈ d'.heap ↔ x ∈ d.heap ∨ x ∈ r.blocks a) →
      r.id = some d.nextResourceId ∧ d'.nextResourceId = d.nextResourceId + 1 ∨
        r.id = none ∧ d'.nextResourceId = d.nextResourceId → GpuChange c d d'
  /-- A resource changes, and perhaps its blocks. -/
  | set {d'} (a : UInt64) (r r' : GpuResource) : d.resources a = some r →
      (r.mapped = true → c.GivesUp a) → (r'.blocks a).Nodup →
      (∀ x ∈ r'.blocks a, x ∈ d.heap → x ∈ r.blocks a) →
      d'.resources = Function.update d.resources a (some r') →
      (∀ x, x ∈ d'.heap ↔ (x ∈ d.heap ∧ x ∉ r.blocks a) ∨ x ∈ r'.blocks a) →
      r'.id = r.id → d'.nextResourceId = d.nextResourceId → GpuChange c d d'
  /-- A resource is gone, with its blocks. -/
  | gone {d'} (a : UInt64) (r : GpuResource) : d.resources a = some r →
      (r.mapped = true → c.GivesUp a) → d'.resources = Function.update d.resources a none →
      (∀ x, x ∈ d'.heap ↔ x ∈ d.heap ∧ x ∉ r.blocks a) → d'.nextResourceId = d.nextResourceId →
      GpuChange c d d'

variable {realloc : Realloc} {c : DeviceCall} {d d' : GpuDevice} {a : UInt64} {r r' : GpuResource}

theorem GpuDevice.owned_eq (h : d.resources a = some r) : d.owned a = r.blocks a := by
  rw [owned, h, Option.elim_some]

theorem GpuDevice.owned_update (hres : d'.resources = Function.update d.resources a (some r)) :
    d'.owned = Function.update d.owned a (r.blocks a) := by
  funext b
  by_cases hb : b = a
  · rw [hb, Function.update_self, owned, hres, Function.update_self, Option.elim_some]
  · rw [Function.update_of_ne hb, owned, hres, Function.update_of_ne hb, owned]

theorem GpuDevice.owned_update_none (hres : d'.resources = Function.update d.resources a none) :
    d'.owned = Function.update d.owned a [] := by
  funext b
  by_cases hb : b = a
  · rw [hb, Function.update_self, owned, hres, Function.update_self, Option.elim_none]
  · rw [Function.update_of_ne hb, owned, hres, Function.update_of_ne hb, owned]

/-- The structure itself is a block. -/
theorem GpuResource.mem_blocks (a : UInt64) (r : GpuResource) : a ∈ r.blocks a := by
  cases r <;> simp [blocks]

/-- An address that is not in use has no resource. -/
theorem resources_none (h : Owns d.owned d.heap) (ha : a ∉ d.heap) : d.resources a = none := by
  cases hr : d.resources a with
  | none => rfl
  | some r =>
    refine absurd ((h.mem_heap a).mpr ⟨a, ?_⟩) ha
    rw [GpuDevice.owned_eq hr]
    exact r.mem_blocks a

/-- **Every change keeps the ownership.** -/
theorem GpuChange.owns (hc : GpuChange c d d') (h : Owns d.owned d.heap) : Owns d'.owned d'.heap := by
  cases hc with
  | same hres hheap _ =>
    have howned : d'.owned = d.owned := by
      funext b
      rw [GpuDevice.owned, hres, GpuDevice.owned]
    rwa [howned, hheap]
  | new a r hnodup hfresh hres hheap _ =>
    rw [GpuDevice.owned_update hres]
    have hnone : d.owned a = [] := by
      rw [GpuDevice.owned, resources_none h (hfresh a (r.mem_blocks a)), Option.elim_none]
    refine h.change hnodup (fun x hx hin => absurd hin (hfresh x hx)) fun x => ?_
    rw [hheap, hnone]
    simp
  | set a r r' hr _ hnodup hfresh hres hheap _ _ =>
    rw [GpuDevice.owned_update hres]
    refine h.change hnodup (fun x hx hin => ?_) fun x => ?_
    · rw [GpuDevice.owned_eq hr]
      exact hfresh x hx hin
    · rw [hheap, GpuDevice.owned_eq hr]
  | gone a r hr _ hres hheap _ =>
    rw [GpuDevice.owned_update_none hres]
    refine h.change List.nodup_nil (by simp) fun x => ?_
    rw [hheap, GpuDevice.owned_eq hr]
    simp

theorem GpuChange.refl (c : DeviceCall) (d : GpuDevice) : GpuChange c d d := .same rfl rfl (.inl rfl)

/-- A resource that is written has the same blocks. -/
theorem put_change (h : Owns d.owned d.heap) (hr : d.resources a = some r)
    (hkeep : r.mapped = true → c.GivesUp a) (hblocks : r'.blocks a = r.blocks a)
    (hid : r'.id = r.id) : GpuChange c d (d.put a (some r')) := by
  refine .set a r r' hr hkeep ?_ ?_ rfl (fun x => ?_) hid rfl
  · rw [hblocks, ← GpuDevice.owned_eq hr]
    exact h.nodup a
  · rw [hblocks]
    exact fun _ hx _ => hx
  · rw [hblocks]
    have hin : x ∈ r.blocks a → x ∈ d.heap := fun hx =>
      (h.mem_heap x).mpr ⟨a, by rwa [GpuDevice.owned_eq hr]⟩
    show x ∈ d.heap ↔ _
    tauto

/-- The blocks of a resource can be freed. -/
theorem release_change (h : Owns d.owned d.heap) (hr : d.resources a = some r)
    (hkeep : r.mapped = true → c.GivesUp a) : ∃ d', d.release a r = some d' ∧ GpuChange c d d' ∧
      d'.nextResourceId = d.nextResourceId := by
  have hfree := h.freeAll a
  rw [GpuDevice.owned_eq hr] at hfree
  rw [GpuDevice.release, hfree]
  refine ⟨_, rfl, .gone a r hr hkeep rfl (fun x => ?_) rfl, rfl⟩
  show x ∈ d.heap \ (r.blocks a).toFinset ↔ _
  rw [Finset.mem_sdiff, List.mem_toFinset]

/-- **Destroying** `NULL` or a resource. -/
theorem destroy_change {kind : GpuKind} (h : Owns d.owned d.heap) (hgiven : d.Given kind a)
    (hkeep : ∀ r : GpuResource, r.kind = kind → r.mapped = true → c.GivesUp a) :
    ∃ d', d.destroy kind a = some d' ∧ GpuChange c d d' := by
  rw [GpuDevice.destroy]
  by_cases ha : a = 0
  · rw [if_pos ha]
    exact ⟨d, rfl, .refl c d⟩
  obtain ⟨r, hr, hkind⟩ := hgiven.resolve_left ha
  rw [if_neg ha, hr, Option.bind_some, if_pos hkind]
  obtain ⟨d', hd, hchange, -⟩ := release_change h hr (hkeep r hkind)
  exact ⟨d', hd, hchange⟩

/-- **A structure with data** is made, or nothing is left of it. -/
theorem withData_change {d₀ : GpuDevice} {malloc₂ : Option UInt64} {make : UInt64 → GpuResource}
    (hfresh : FreshTwo d.heap (some a) malloc₂) (hheap : d₀.heap = insert a d.heap)
    (hres : d₀.resources = d.resources) (hblocks : ∀ data, (make data).blocks a = [data, a])
    (hid : ∀ data, (make data).id = some d.nextResourceId ∧
        d₀.nextResourceId = d.nextResourceId + 1 ∨
      (make data).id = none ∧ d₀.nextResourceId = d.nextResourceId) :
    ∃ d' v, d₀.withData a malloc₂ make = some (d', v) ∧ GpuChange c d d' := by
  obtain ⟨hfirst, hsecond⟩ := hfresh
  have ha : a ∉ d.heap := (hfirst a rfl).1
  cases malloc₂ with
  | none =>
    have hfree : freeBlock d₀.heap a = some d.heap := by
      rw [freeBlock, hheap, if_pos (Finset.mem_insert_self a _), Finset.erase_insert ha]
    rw [GpuDevice.withData, hfree]
    refine ⟨_, _, rfl, .same hres rfl ?_⟩
    rcases hid 0 with ⟨-, hnext⟩ | ⟨-, hnext⟩
    · exact .inr hnext
    · exact .inl hnext
  | some data =>
    have hdata : data ∉ d.heap ∧ data ≠ a := by
      have hnot := (hsecond data rfl).1
      simp only [Option.toFinset_some, Finset.mem_union, Finset.mem_singleton, not_or] at hnot
      exact hnot
    refine ⟨_, _, rfl, .new a (make data) ?_ ?_ ?_ (fun x => ?_) (hid data)⟩
    · rw [hblocks]
      simpa using hdata.2
    · rw [hblocks]
      simpa using ⟨hdata.1, ha⟩
    · show Function.update d₀.resources a _ = _
      rw [hres]
    · rw [hblocks]
      show x ∈ insert data d₀.heap ↔ _
      rw [hheap]
      simp only [Finset.mem_insert, List.mem_cons, List.not_mem_nil, or_false]
      tauto

/-- **A structure without data** is made. -/
theorem plain_change (hfresh : a ∉ d.heap) (hblocks : r.blocks a = [a])
    (hid : r.id = some d.nextResourceId) :
    GpuChange c d ((d.allocate a).takeId.put a (some r)) := by
  refine .new a r ?_ ?_ rfl (fun x => ?_) (.inl ⟨hid, rfl⟩)
  · rw [hblocks]
    exact List.nodup_singleton a
  · rw [hblocks]
    simpa using hfresh
  · rw [hblocks]
    show x ∈ insert a d.heap ↔ _
    rw [Finset.mem_insert, List.mem_singleton, or_comm]

/-- Pipelines and samplers. -/
theorem createPlain_change {given : Bool} {malloc₁ : Option UInt64} {make : UInt32 → GpuResource}
    (hfresh : Fresh d.heap malloc₁) (hblocks : ∀ id a, (make id).blocks a = [a])
    (hid : ∀ id, (make id).id = some id) : GpuChange c d (d.createPlain given malloc₁ make).1 := by
  unfold GpuDevice.createPlain
  split
  · exact plain_change (hfresh _ rfl).1 (hblocks _ _) (hid _)
  · exact .refl c d

/-- The fence of a command buffer that is submitted. -/
theorem makeFence_change {signalFence : Option (Option UInt64)}
    (hfresh : ∀ malloc ∈ signalFence, Fresh d.heap malloc) :
    GpuChange c d (d.makeFence signalFence).1 := by
  unfold GpuDevice.makeFence
  split
  · exact plain_change (hfresh _ rfl _ rfl).1 rfl rfl
  · exact .refl c d

/-- What is in the heap is not touched by it. -/
theorem makeFence_resources {signalFence : Option (Option UInt64)}
    (hfresh : ∀ malloc ∈ signalFence, Fresh d.heap malloc) (ha : a ∈ d.heap) :
    (d.makeFence signalFence).1.resources a = d.resources a := by
  unfold GpuDevice.makeFence
  split
  · rename_i address
    have hne : a ≠ address := by
      rintro rfl
      exact (hfresh _ rfl _ rfl).1 ha
    exact Function.update_of_ne hne ..
  · rfl

/-- **A word is pushed**, into the memory that is there or into other memory. -/
theorem push_change {data : UInt64} {buf : GpuCommandBuffer} {command : UInt32}
    {moved : Option UInt64} (h : Owns d.owned d.heap) (hr : d.resources a = some (.commands data buf))
    (hgrow : buf.capacity ≤ buf.count →
      (realloc.move buf.commands buf.capacity (buf.capacity * 2)).isSome = true ∧
        moved.isSome = true ∧ Fresh (d.heap.erase data) moved) :
    ∃ d', d.pushCommand realloc a command moved = some d' ∧ GpuChange c d d' := by
  have hkeep : (GpuResource.commands data buf).mapped = true → c.GivesUp a := nofun
  rw [GpuDevice.pushCommand, hr]
  dsimp only
  by_cases hfull : buf.capacity ≤ buf.count
  swap
  · rw [cmdBufferPush, if_neg hfull, Option.bind_some, if_neg hfull]
    exact ⟨_, rfl, put_change h hr hkeep rfl rfl⟩
  obtain ⟨hmove, hmoved, hfresh⟩ := hgrow hfull
  obtain ⟨commands, hcommands⟩ := Option.isSome_iff_exists.mp hmove
  obtain ⟨data', rfl⟩ := Option.isSome_iff_exists.mp hmoved
  have hnodup := h.nodup a
  have hmem : ∀ x ∈ [data, a], x ∈ d.heap := by
    intro x hx
    exact (h.mem_heap x).mpr ⟨a, by rwa [GpuDevice.owned_eq hr]⟩
  rw [GpuDevice.owned_eq hr] at hnodup
  have hne : data ≠ a := by simpa [GpuResource.blocks] using hnodup
  have hdata : data ∈ d.heap := hmem data (by simp)
  have ha : a ∈ d.heap := hmem a (by simp)
  have hnew : data' ∉ d.heap.erase data := (hfresh data' rfl).1
  have hne' : data' ≠ a := by
    rintro rfl
    exact hnew (Finset.mem_erase.mpr ⟨hne.symm, ha⟩)
  rw [cmdBufferPush, if_pos hfull, hcommands, Option.map_some, Option.bind_some, if_pos hfull,
    Option.bind_some, freeBlock, if_pos hdata, Option.map_some]
  refine ⟨_, rfl, .set a _ _ hr hkeep ?_ (fun x hx hin => ?_) rfl (fun x => ?_) rfl rfl⟩
  · simpa [GpuResource.blocks] using hne'
  · simp only [GpuResource.blocks, List.mem_cons, List.not_mem_nil, or_false] at hx ⊢
    rcases hx with rfl | rfl
    · by_contra hnot
      exact hnew (Finset.mem_erase.mpr ⟨fun heq => hnot (.inl heq), hin⟩)
    · exact .inr rfl
  · show x ∈ insert data' (d.heap.erase data) ↔ _
    simp only [GpuResource.blocks, Finset.mem_insert, Finset.mem_erase, List.mem_cons,
      List.not_mem_nil, or_false, not_or]
    by_cases hxa : x = a
    · rw [hxa]
      simp [ha, hne.symm]
    · tauto

/-! ### The calls -/

theorem createBuffer_change {desc : Option GpuBufferDesc} {malloc₁ malloc₂ : Option UInt64}
    (hfresh : FreshTwo d.heap malloc₁ malloc₂) :
    ∃ d' v, d.gpuCreateBuffer desc malloc₁ malloc₂ = some (d', v) ∧ GpuChange c d d' := by
  unfold GpuDevice.gpuCreateBuffer
  split
  · exact withData_change hfresh rfl rfl (fun _ => rfl) fun _ => .inl ⟨rfl, rfl⟩
  · exact ⟨d, 0, rfl, .refl c d⟩

theorem createTexture_change {desc : Option GpuTextureDesc} {malloc₁ malloc₂ : Option UInt64}
    (hfresh : FreshTwo d.heap malloc₁ malloc₂) :
    ∃ d' v, d.createTexture desc malloc₁ malloc₂ = some (d', v) ∧ GpuChange c d d' := by
  unfold GpuDevice.createTexture
  split
  · exact withData_change hfresh rfl rfl (fun _ => rfl) fun _ => .inl ⟨rfl, rfl⟩
  · exact ⟨d, 0, rfl, .refl c d⟩

/-- It makes the texture of `gpuCreateTexture`, at the address that is returned. -/
theorem createTexture_texture {desc : GpuTextureDesc} {malloc₁ malloc₂ : Option UInt64} {v : UInt64}
    (hcall : d.createTexture (some desc) malloc₁ malloc₂ = some (d', v)) :
    d'.toGpuState =
        (gpuCreateTexture (fun _ => malloc₁) (fun _ => malloc₂) d.toGpuState desc).1 ∧
      ∀ made ∈ (gpuCreateTexture (fun _ => malloc₁) (fun _ => malloc₂) d.toGpuState desc).2,
        d'.resources v = some (.texture made.1) := by
  unfold GpuDevice.createTexture at hcall
  rw [gpuCreateTexture]
  obtain ⟨⟨nextResourceId, gpuInitialized⟩, frame, heap, resources⟩ := d
  cases gpuInitialized with
  | false =>
    obtain ⟨rfl, -⟩ := Prod.mk.inj (Option.some.inj hcall)
    exact ⟨rfl, fun _ hmade => by cases hmade⟩
  | true =>
    cases malloc₁ with
    | none =>
      obtain ⟨rfl, -⟩ := Prod.mk.inj (Option.some.inj hcall)
      exact ⟨rfl, fun _ hmade => by cases hmade⟩
    | some address =>
      cases malloc₂ with
      | none =>
        obtain ⟨heap', -, hheap⟩ := Option.map_eq_some_iff.mp hcall
        obtain ⟨rfl, -⟩ := Prod.mk.inj hheap
        exact ⟨rfl, fun _ hmade => by cases hmade⟩
      | some data =>
        obtain ⟨rfl, rfl⟩ := Prod.mk.inj (Option.some.inj hcall)
        refine ⟨rfl, fun made hmade => ?_⟩
        obtain rfl := Option.some.inj hmade
        exact Function.update_self ..

theorem beginCommandBuffer_change {malloc₁ malloc₂ : Option UInt64} {contents : ℕ → UInt32}
    (hfresh : FreshTwo d.heap malloc₁ malloc₂) :
    ∃ d' v, d.beginCommandBuffer malloc₁ malloc₂ contents = some (d', v) ∧ GpuChange c d d' := by
  unfold GpuDevice.beginCommandBuffer
  split
  · exact withData_change hfresh rfl rfl (fun _ => rfl) fun _ => .inr ⟨rfl, rfl⟩
  · exact ⟨d, 0, rfl, .refl c d⟩

theorem mapBuffer_change (h : Owns d.owned d.heap) (hgiven : d.Given .buffer a) :
    ∃ d' v, d.gpuMapBuffer a = some (d', v) ∧ GpuChange c d d' := by
  rw [GpuDevice.gpuMapBuffer]
  by_cases hnull : a = 0
  · rw [if_pos hnull]
    exact ⟨d, 0, rfl, .refl c d⟩
  obtain ⟨r, hr, hkind⟩ := hgiven.resolve_left hnull
  rw [if_neg hnull, hr]
  cases r with
  | buffer b =>
    dsimp only
    split_ifs with hmapped
    · exact ⟨d, 0, rfl, .refl c d⟩
    · exact ⟨_, _, rfl, put_change h hr (fun hm => absurd hm hmapped) rfl rfl⟩
  | _ => cases hkind

theorem unmapBuffer_change (h : Owns d.owned d.heap) (hgiven : d.Given .buffer a)
    (hkeep : c.GivesUp a) : ∃ d', d.gpuUnmapBuffer a = some d' ∧ GpuChange c d d' := by
  rw [GpuDevice.gpuUnmapBuffer]
  by_cases hnull : a = 0
  · rw [if_pos hnull]
    exact ⟨d, rfl, .refl c d⟩
  obtain ⟨r, hr, hkind⟩ := hgiven.resolve_left hnull
  rw [if_neg hnull, hr]
  cases r with
  | buffer b => exact ⟨_, rfl, put_change h hr (fun _ => hkeep) rfl rfl⟩
  | _ => cases hkind

theorem mapTexture_change {level arraySlice : UInt32} (h : Owns d.owned d.heap)
    (hgiven : d.Given .texture a) :
    ∃ d' v, d.mapTexture a level arraySlice = some (d', v) ∧ GpuChange c d d' := by
  rw [GpuDevice.mapTexture]
  by_cases hnull : a = 0
  · rw [if_pos hnull]
    exact ⟨d, 0, rfl, .refl c d⟩
  obtain ⟨r, hr, hkind⟩ := hgiven.resolve_left hnull
  rw [if_neg hnull, hr]
  cases r with
  | texture t =>
    dsimp only
    rw [gpuMapTexture]
    split_ifs with hmapped
    · exact ⟨d, 0, rfl, .refl c d⟩
    · exact ⟨_, _, rfl, put_change h hr (fun hm => absurd (.inl hm) hmapped) rfl rfl⟩
  | _ => cases hkind

theorem unmapTexture_change (h : Owns d.owned d.heap) (hgiven : d.Given .texture a)
    (hkeep : c.GivesUp a) : ∃ d', d.unmapTexture a = some d' ∧ GpuChange c d d' := by
  rw [GpuDevice.unmapTexture]
  by_cases hnull : a = 0
  · rw [if_pos hnull]
    exact ⟨d, rfl, .refl c d⟩
  obtain ⟨r, hr, hkind⟩ := hgiven.resolve_left hnull
  rw [if_neg hnull, hr]
  cases r with
  | texture t => exact ⟨_, rfl, put_change h hr (fun _ => hkeep) rfl rfl⟩
  | _ => cases hkind

theorem submit_change {signalFence : Option (Option UInt64)} (h : Owns d.owned d.heap)
    (hgiven : d.Given .commands a) (hfresh : ∀ malloc ∈ signalFence, Fresh d.heap malloc) :
    ∃ d' v d₁, d.gpuSubmitCommandBuffer a signalFence = some (d', v) ∧ GpuChange c d d₁ ∧
      GpuChange c d₁ d' ∧ d'.nextResourceId = d₁.nextResourceId := by
  rw [GpuDevice.gpuSubmitCommandBuffer]
  by_cases hnull : a = 0
  · rw [if_pos hnull]
    exact ⟨d, 0, d, rfl, .refl c d, .refl c d, rfl⟩
  obtain ⟨r, hr, hkind⟩ := hgiven.resolve_left hnull
  rw [if_neg hnull, hr]
  cases r with
  | commands data buf =>
    have hfence : GpuChange c d (d.makeFence signalFence).1 := makeFence_change hfresh
    have ha : a ∈ d.heap := by
      refine (h.mem_heap a).mpr ⟨a, ?_⟩
      rw [GpuDevice.owned_eq hr]
      exact GpuResource.mem_blocks ..
    obtain ⟨d', hd, hchange, hnext⟩ := release_change (c := c) (hfence.owns h)
      ((makeFence_resources hfresh ha).trans hr) nofun
    dsimp only
    rw [hd]
    exact ⟨d', _, _, rfl, hfence, hchange, hnext⟩
  | _ => cases hkind

theorem waitFence_change (h : Owns d.owned d.heap) (hgiven : d.Given .fence a) :
    ∃ d', d.gpuWaitFence a = some d' ∧ GpuChange c d d' := by
  rw [GpuDevice.gpuWaitFence]
  by_cases hnull : a = 0
  · rw [if_pos hnull]
    exact ⟨d, rfl, .refl c d⟩
  obtain ⟨r, hr, hkind⟩ := hgiven.resolve_left hnull
  rw [if_neg hnull, hr]
  cases r with
  | fence f => exact ⟨_, rfl, put_change h hr nofun rfl rfl⟩
  | _ => cases hkind

theorem present_change (hgiven : d.Given .texture a) :
    ∃ d', d.gpuPresent a = some d' ∧ GpuChange c d d' := by
  rw [GpuDevice.gpuPresent]
  by_cases hnull : a = 0
  · rw [if_pos hnull]
    exact ⟨d, rfl, .refl c d⟩
  obtain ⟨r, hr, hkind⟩ := hgiven.resolve_left hnull
  rw [if_neg hnull, hr]
  cases r with
  | texture t => exact ⟨_, rfl, .same rfl rfl (.inl rfl)⟩
  | _ => cases hkind

theorem init_change : GpuChange c d d.gpuInit.1 := by
  unfold GpuDevice.gpuInit
  split
  · exact .refl c d
  · exact .same rfl rfl (.inl rfl)

/-- Only buffers and textures are mapped. -/
theorem GpuResource.not_mapped {kind : GpuKind} (hb : kind ≠ .buffer) (ht : kind ≠ .texture)
    (hkind : r.kind = kind) : ¬ r.mapped = true := by
  cases r with
  | buffer b => exact absurd hkind.symm hb
  | texture t => exact absurd hkind.symm ht
  | _ => nofun

/-- What an allowed call leaves and returns: there are two changes at most, of which the second one
takes no `id`. -/
def Changes (realloc : Realloc) (d : GpuDevice) (c : DeviceCall) : Prop :=
  ∃ d' v d₁, gpuCall realloc d c = some (d', v) ∧ GpuChange c d d₁ ∧ GpuChange c d₁ d' ∧
    d'.nextResourceId = d₁.nextResourceId

/-- **What a call can do.** -/
theorem gpuCall_change (h : Owns d.owned d.heap) (hok : GpuCallOk realloc d c) :
    Changes realloc d c := by
  -- all calls but one make one change, or none
  have hone : (∃ d' v, gpuCall realloc d c = some (d', v) ∧ GpuChange c d d') →
      Changes realloc d c := by
    rintro ⟨d', v, hcall, hchange⟩
    exact ⟨d', v, d', hcall, hchange, .refl c d', rfl⟩
  have hdone : ∀ {f : Option GpuDevice}, gpuCall realloc d c = f.map (·, 0) →
      (∃ d', f = some d' ∧ GpuChange c d d') → Changes realloc d c := by
    rintro f hcall ⟨d', rfl, hchange⟩
    exact hone ⟨d', 0, hcall, hchange⟩
  have hplain : ∀ {kind : GpuKind} {address : UInt64}, kind ≠ .buffer → kind ≠ .texture →
      ∀ r : GpuResource, r.kind = kind → r.mapped = true → c.GivesUp address :=
    fun hb ht r hkind hm => absurd hm (GpuResource.not_mapped hb ht hkind)
  cases c with
  | init => exact hone ⟨_, _, rfl, init_change⟩
  | shutdown => exact hone ⟨_, _, rfl, .same rfl rfl (.inl rfl)⟩
  | createBuffer desc malloc₁ malloc₂ => exact hone (createBuffer_change hok)
  | destroyBuffer buffer => exact hdone rfl (destroy_change h hok fun _ _ _ => rfl)
  | mapBuffer buffer => exact hone (mapBuffer_change h hok)
  | unmapBuffer buffer => exact hdone rfl (unmapBuffer_change h hok rfl)
  | createTexture desc malloc₁ malloc₂ => exact hone (createTexture_change hok)
  | destroyTexture texture => exact hdone rfl (destroy_change h hok fun _ _ _ => rfl)
  | mapTexture texture level arraySlice => exact hone (mapTexture_change h hok)
  | unmapTexture texture => exact hdone rfl (unmapTexture_change h hok rfl)
  | createPipeline given malloc₁ =>
    exact hone ⟨_, _, rfl, createPlain_change hok (fun _ _ => rfl) fun _ => rfl⟩
  | destroyPipeline pipeline => exact hdone rfl (destroy_change h hok (hplain nofun nofun))
  | createSampler given malloc₁ =>
    exact hone ⟨_, _, rfl, createPlain_change hok (fun _ _ => rfl) fun _ => rfl⟩
  | destroySampler sampler => exact hdone rfl (destroy_change h hok (hplain nofun nofun))
  | beginCommandBuffer malloc₁ malloc₂ contents => exact hone (beginCommandBuffer_change hok)
  | pushCommand cmdBuffer command moved =>
    obtain ⟨data, buf, hr, hgrow⟩ := hok
    exact hdone rfl (push_change h hr hgrow)
  | endCommandBuffer cmdBuffer => exact hone ⟨d, 0, rfl, .refl _ d⟩
  | submitCommandBuffer cmdBuffer signalFence => exact submit_change h hok.1 hok.2
  | waitFence fence => exact hdone rfl (waitFence_change h hok)
  | destroyFence fence => exact hdone rfl (destroy_change h hok (hplain nofun nofun))
  | present texture => exact hdone rfl (present_change hok)

/-! ### Runs -/

/-- **Runs from a state in which everything is owned.** -/
theorem run_owns {calls : List DeviceCall} (h : Owns d.owned d.heap)
    (hmade : Made (gpuStep realloc) (GpuCallOk realloc) d calls) :
    ∃ d', run (gpuStep realloc) d calls = some d' ∧ Owns d'.owned d'.heap := by
  induction calls generalizing d with
  | nil => exact ⟨d, rfl, h⟩
  | cons c calls ih =>
    obtain ⟨hok, hrest⟩ := hmade
    obtain ⟨d₂, v, d₁, hcall, hfirst, hsecond, -⟩ := gpuCall_change h hok
    have hstep : gpuStep realloc d c = some d₂ := by
      rw [gpuStep, hcall]
      rfl
    obtain ⟨d', hrun, howns⟩ := ih (hsecond.owns (hfirst.owns h)) (hrest d₂ hstep)
    exact ⟨d', by rw [run, hstep, Option.bind_some, hrun], howns⟩

theorem initial_owns : Owns GpuDevice.initial.owned GpuDevice.initial.heap := Owns.empty

/-- A buffer of eight bytes is made. -/
def oneBuffer : List DeviceCall := [.init, .createBuffer (some ⟨8, 1⟩) (some 16) (some 32)]

/-- The device with the buffer. -/
def bufferDevice : GpuDevice where
  nextResourceId := 2
  gpuInitialized := true
  currentFrameIndex := 0
  heap := {32, 16}
  resources := Function.update (fun _ => none) 16 (some (.buffer ⟨1, 8, 1, 32, false⟩))

theorem bufferDevice_eq : run (gpuStep inPlace) GpuDevice.initial oneBuffer = some bufferDevice := rfl

theorem oneBuffer_made : Made (gpuStep inPlace) (GpuCallOk inPlace) GpuDevice.initial oneBuffer := by
  refine ⟨trivial, fun d hd => ⟨?_, fun _ _ => trivial⟩⟩
  obtain rfl := Option.some.inj hd
  refine ⟨fun x hx => ?_, fun x hx => ?_⟩
  · obtain rfl := Option.some.inj hx
    exact ⟨by decide, by decide⟩
  · obtain rfl := Option.some.inj hx
    exact ⟨by decide, by decide⟩

/-- So many were given out, and each of them once. -/
structure IdsOk (d : GpuDevice) (n : ℕ) : Prop where
  /-- The next one. -/
  next : d.nextResourceId = UInt32.ofNat (n + 1)
  /-- The ones that are used. -/
  le : ∀ a r i, d.resources a = some r → r.id = some i → i.toNat ≤ n
  /-- Two resources have different ones. -/
  distinct : ∀ a b r r' i, d.resources a = some r → d.resources b = some r' → r.id = some i →
    r'.id = some i → a = b

theorem add_one_ne (x : UInt32) : x + 1 ≠ x := by
  intro h
  have htoNat := congrArg UInt32.toNat h
  rw [UInt32.toNat_add, UInt32.toNat_one] at htoNat
  have hlt := x.toNat_lt
  omega

/-- What a change keeps of them. -/
theorem GpuChange.idsOk {n : ℕ} (hc : GpuChange c d d') (h : IdsOk d n)
    (hn : d'.nextResourceId ≠ d.nextResourceId → n + 1 < 2 ^ 32) :
    (IdsOk d' n ∧ d'.nextResourceId = d.nextResourceId) ∨
      (IdsOk d' (n + 1) ∧ d'.nextResourceId = d.nextResourceId + 1) := by
  have hsucc : d.nextResourceId + 1 = UInt32.ofNat (n + 1 + 1) := by
    rw [h.next, UInt32.ofNat_add (n + 1) 1]
    rfl
  -- one resource has another `id`, which nobody else has
  have hone : ∀ (a : UInt64) (new : Option GpuResource) (m : ℕ), n ≤ m →
      d'.nextResourceId = UInt32.ofNat (m + 1) →
      d'.resources = Function.update d.resources a new →
      (∀ r i, new = some r → r.id = some i → i.toNat ≤ m ∧
        ∀ b r', b ≠ a → d.resources b = some r' → r'.id ≠ some i) → IdsOk d' m := by
    intro a new m hm hnext hres hnew
    refine ⟨hnext, fun b r i hr hi => ?_, fun b e r r' i hr hr' hi hi' => ?_⟩
    · rw [hres] at hr
      by_cases hb : b = a
      · rw [hb, Function.update_self] at hr
        exact (hnew r i hr hi).1
      · rw [Function.update_of_ne hb] at hr
        exact (h.le b r i hr hi).trans hm
    · rw [hres] at hr hr'
      by_cases hb : b = a
      · by_cases he : e = a
        · rw [hb, he]
        · rw [hb, Function.update_self] at hr
          rw [Function.update_of_ne he] at hr'
          exact absurd hi' ((hnew r i hr hi).2 e r' he hr')
      · rw [Function.update_of_ne hb] at hr
        by_cases he : e = a
        · rw [he, Function.update_self] at hr'
          exact absurd hi ((hnew r' i hr' hi').2 b r hb hr)
        · rw [Function.update_of_ne he] at hr'
          exact h.distinct b e r r' i hr hr' hi hi'
  cases hc with
  | same hres _ hid =>
    rcases hid with hid | hid
    · refine .inl ⟨⟨hid.trans h.next, ?_, ?_⟩, hid⟩
      · rw [hres]
        exact h.le
      · rw [hres]
        exact h.distinct
    · refine .inr ⟨⟨hid.trans hsucc, fun a r i hr hi => ?_, ?_⟩, hid⟩
      · rw [hres] at hr
        exact (h.le a r i hr hi).trans (Nat.le_succ n)
      · rw [hres]
        exact h.distinct
  | new a r _ _ hres _ hid =>
    rcases hid with ⟨hid, hnext⟩ | ⟨hid, hnext⟩
    · refine .inr ⟨hone a (some r) (n + 1) (Nat.le_succ n) (hnext.trans hsucc) hres ?_, hnext⟩
      rintro r₀ i hr₀ hi
      obtain rfl := Option.some.inj hr₀
      obtain rfl : d.nextResourceId = i := Option.some.inj (hid.symm.trans hi)
      have hvalue : d.nextResourceId.toNat = n + 1 := by
        have hlt := hn (by rw [hnext]; exact add_one_ne _)
        rw [h.next, UInt32.toNat_ofNat', Nat.mod_eq_of_lt hlt]
      refine ⟨hvalue.le, fun b r' _ hr' hi' => ?_⟩
      have hle := h.le b r' _ hr' hi'
      omega
    · refine .inl ⟨hone a (some r) n le_rfl (hnext.trans h.next) hres ?_, hnext⟩
      rintro r₀ i hr₀ hi
      obtain rfl := Option.some.inj hr₀
      cases hid.symm.trans hi
  | set a r r' hr _ _ _ hres _ hid hnext =>
    refine .inl ⟨hone a (some r') n le_rfl (hnext.trans h.next) hres ?_, hnext⟩
    rintro r₀ i hr₀ hi
    obtain rfl := Option.some.inj hr₀
    rw [hid] at hi
    exact ⟨h.le a r i hr hi, fun b r' hb hr' hi' => hb (h.distinct b a r' r i hr' hr hi' hi)⟩
  | gone a r _ _ hres _ hnext =>
    exact .inl ⟨hone a none n le_rfl (hnext.trans h.next) hres nofun, hnext⟩

/-- A run gives out one for each call, at most. -/
theorem run_idsOk {calls : List DeviceCall} {n : ℕ} (h : Owns d.owned d.heap) (hids : IdsOk d n)
    (hmade : Made (gpuStep realloc) (GpuCallOk realloc) d calls) (hn : n + calls.length < 2 ^ 32)
    (hrun : run (gpuStep realloc) d calls = some d') : ∃ m, IdsOk d' m := by
  induction calls generalizing d n with
  | nil => exact ⟨n, Option.some.inj hrun ▸ hids⟩
  | cons c calls ih =>
    obtain ⟨hok, hrest⟩ := hmade
    rw [List.length_cons] at hn
    obtain ⟨d₂, v, d₁, hcall, hfirst, hsecond, hsame⟩ := gpuCall_change h hok
    have hstep : gpuStep realloc d c = some d₂ := by
      rw [gpuStep, hcall]
      rfl
    rw [run, hstep, Option.bind_some] at hrun
    have howns := hsecond.owns (hfirst.owns h)
    -- the second change takes no `id`
    have hlast : ∀ {m : ℕ}, IdsOk d₁ m → IdsOk d₂ m := by
      intro m hm
      rcases hsecond.idsOk hm fun hne => absurd hsame hne with ⟨hids₂, -⟩ | ⟨-, hnext⟩
      · exact hids₂
      · exact absurd (hnext.symm.trans hsame) (add_one_ne _)
    rcases hfirst.idsOk hids fun _ => by omega with ⟨hids₁, -⟩ | ⟨hids₁, -⟩
    · exact ih howns (hlast hids₁) (hrest d₂ hstep) (by omega) hrun
    · exact ih howns (hlast hids₁) (hrest d₂ hstep) (by omega) hrun

theorem initial_idsOk : IdsOk GpuDevice.initial 0 where
  next := rfl
  le _ r _ hr _ := (Option.some_ne_none r hr.symm).elim
  distinct _ _ r _ _ hr _ _ _ := (Option.some_ne_none r hr.symm).elim

/-- **Identifiers are given out once**: after fewer than 2³² calls, two resources that were not
destroyed have different ones. -/
theorem ids_distinct (realloc : Realloc) (calls : List DeviceCall)
    (hmade : Made (gpuStep realloc) (GpuCallOk realloc) GpuDevice.initial calls)
    (hlength : calls.length < 2 ^ 32) (d : GpuDevice)
    (hrun : run (gpuStep realloc) GpuDevice.initial calls = some d) (a b : UInt64)
    (r r' : GpuResource) (i : UInt32) (hr : d.resources a = some r) (hr' : d.resources b = some r')
    (hi : r.id = some i) (hi' : r'.id = some i) : a = b := by
  obtain ⟨m, hids⟩ := run_idsOk initial_owns initial_idsOk hmade (by omega) hrun
  exact hids.distinct a b r r' i hr hr' hi hi'

/-- A pipeline and a sampler. -/
def twoPlain : List DeviceCall := [.init, .createPipeline true (some 16), .createSampler true (some 32)]

/-- The device with both. -/
def plainDevice : GpuDevice := (run (gpuStep inPlace) GpuDevice.initial twoPlain).getD .initial

theorem twoPlain_made : Made (gpuStep inPlace) (GpuCallOk inPlace) GpuDevice.initial twoPlain := by
  refine ⟨trivial, fun d hd => ⟨?_, fun d' hd' => ⟨?_, fun _ _ => trivial⟩⟩⟩
  · obtain rfl := Option.some.inj hd
    intro x hx
    obtain rfl := Option.some.inj hx
    exact ⟨by decide, by decide⟩
  · obtain rfl := Option.some.inj hd
    obtain rfl := Option.some.inj hd'
    intro x hx
    obtain rfl := Option.some.inj hx
    exact ⟨by decide, by decide⟩

/-- They do not have the same one. -/
theorem ids_distinct_two : (plainDevice.resources 32).bind GpuResource.id ≠ some 1 := by
  intro hsame
  have heq : (32 : UInt64) = 16 := ids_distinct inPlace twoPlain twoPlain_made (by decide) plainDevice rfl
    32 16 (.sampler 2) (.pipeline 1) 1 rfl rfl hsame rfl
  exact absurd heq (by decide)

/-! ### Mapping -/

/-- A call that maps what is at an address. -/
def DeviceCall.Maps (address : UInt64) : DeviceCall → Prop
  | .mapBuffer a | .mapTexture a _ _ => a = address
  | _ => False

/-- What is mapped stays as it is until it is given up. -/
theorem GpuChange.kept (hc : GpuChange c d d') (h : Owns d.owned d.heap)
    (hr : d.resources a = some r) (hmapped : r.mapped = true) (hno : ¬ c.GivesUp a) :
    d'.resources a = some r := by
  cases hc with
  | same hres _ _ => rw [hres, hr]
  | new b _ _ hfresh hres _ _ =>
    have hne : a ≠ b := by
      rintro rfl
      refine hfresh a (GpuResource.mem_blocks ..) ((h.mem_heap a).mpr ⟨a, ?_⟩)
      rw [GpuDevice.owned_eq hr]
      exact r.mem_blocks a
    rw [hres, Function.update_of_ne hne, hr]
  | set b _ _ hb hkeep _ _ hres _ _ _ =>
    have hne : a ≠ b := by
      rintro rfl
      obtain rfl := Option.some.inj (hb.symm.trans hr)
      exact hno (hkeep hmapped)
    rw [hres, Function.update_of_ne hne, hr]
  | gone b _ hb hkeep hres _ _ =>
    have hne : a ≠ b := by
      rintro rfl
      obtain rfl := Option.some.inj (hb.symm.trans hr)
      exact hno (hkeep hmapped)
    rw [hres, Function.update_of_ne hne, hr]

/-- So it does in a run. -/
theorem run_kept {calls : List DeviceCall} (h : Owns d.owned d.heap) (hr : d.resources a = some r)
    (hmapped : r.mapped = true) (hmade : Made (gpuStep realloc) (GpuCallOk realloc) d calls)
    (hno : ∀ c ∈ calls, ¬ c.GivesUp a) (hrun : run (gpuStep realloc) d calls = some d') :
    d'.resources a = some r := by
  induction calls generalizing d with
  | nil => exact Option.some.inj hrun ▸ hr
  | cons c calls ih =>
    obtain ⟨hok, hrest⟩ := hmade
    rw [List.forall_mem_cons] at hno
    obtain ⟨d₂, v, d₁, hcall, hfirst, hsecond, -⟩ := gpuCall_change h hok
    have hstep : gpuStep realloc d c = some d₂ := by
      rw [gpuStep, hcall]
      rfl
    rw [run, hstep, Option.bind_some] at hrun
    have howns := hfirst.owns h
    have hr₁ := hfirst.kept h hr hmapped hno.1
    exact ih (hsecond.owns howns) (hsecond.kept howns hr₁ hmapped hno.1) (hrest d₂ hstep) hno.2 hrun

/-- A call that maps something returns `NULL` and changes nothing, or leaves it mapped. -/
theorem map_result {v : UInt64} (hc : c.Maps a) (hcall : gpuCall realloc d c = some (d', v)) :
    (d' = d ∧ v = 0) ∨ ∃ r, d'.resources a = some r ∧ r.mapped = true := by
  cases c with
  | mapBuffer b =>
    obtain rfl : b = a := hc
    rw [gpuCall, GpuDevice.gpuMapBuffer] at hcall
    split_ifs at hcall
    · obtain ⟨rfl, rfl⟩ := Prod.mk.inj (Option.some.inj hcall)
      exact .inl ⟨rfl, rfl⟩
    split at hcall
    · split_ifs at hcall
      · obtain ⟨rfl, rfl⟩ := Prod.mk.inj (Option.some.inj hcall)
        exact .inl ⟨rfl, rfl⟩
      · obtain ⟨rfl, rfl⟩ := Prod.mk.inj (Option.some.inj hcall)
        exact .inr ⟨_, Function.update_self .., rfl⟩
    · cases hcall
  | mapTexture b level arraySlice =>
    obtain rfl : b = a := hc
    rw [gpuCall, GpuDevice.mapTexture] at hcall
    split_ifs at hcall
    · obtain ⟨rfl, rfl⟩ := Prod.mk.inj (Option.some.inj hcall)
      exact .inl ⟨rfl, rfl⟩
    split at hcall
    · rw [gpuMapTexture] at hcall
      split_ifs at hcall
      · obtain ⟨rfl, rfl⟩ := Prod.mk.inj (Option.some.inj hcall)
        exact .inl ⟨rfl, rfl⟩
      · obtain ⟨rfl, rfl⟩ := Prod.mk.inj (Option.some.inj hcall)
        exact .inr ⟨_, Function.update_self .., rfl⟩
    · cases hcall
  | _ => exact hc.elim

/-- What is mapped is not mapped again. -/
theorem map_mapped (hc : c.Maps a) (hok : GpuCallOk realloc d c) (hr : d.resources a = some r)
    (hmapped : r.mapped = true) : gpuCall realloc d c = some (d, 0) := by
  cases c with
  | mapBuffer b =>
    obtain rfl : b = a := hc
    rw [gpuCall, GpuDevice.gpuMapBuffer]
    by_cases hnull : b = 0
    · rw [if_pos hnull]
    obtain ⟨r₀, hr₀, hkind⟩ := hok.resolve_left hnull
    obtain rfl := Option.some.inj (hr₀.symm.trans hr)
    rw [if_neg hnull, hr]
    cases r₀ with
    | buffer buf => exact if_pos hmapped
    | _ => cases hkind
  | mapTexture b level arraySlice =>
    obtain rfl : b = a := hc
    rw [gpuCall, GpuDevice.mapTexture]
    by_cases hnull : b = 0
    · rw [if_pos hnull]
    obtain ⟨r₀, hr₀, hkind⟩ := hok.resolve_left hnull
    obtain rfl := Option.some.inj (hr₀.symm.trans hr)
    rw [if_neg hnull, hr]
    cases r₀ with
    | texture t =>
      dsimp only
      rw [gpuMapTexture, if_pos (.inl hmapped)]
    | _ => cases hkind
  | _ => exact hc.elim

/-- **One mapping at a time**: wherever in a run a buffer or a texture is mapped, each call that maps
it again, any level of it, returns `NULL` until it is unmapped or destroyed, whatever is called in
between. -/
theorem map_exclusive (realloc : Realloc) (calls : List DeviceCall) (c : DeviceCall)
    (more : List DeviceCall) (c' : DeviceCall) (a v : UInt64) (hc : c.Maps a) (hc' : c'.Maps a)
    (d d₁ d₂ : GpuDevice)
    (hmade : Made (gpuStep realloc) (GpuCallOk realloc) GpuDevice.initial calls)
    (hrun : run (gpuStep realloc) GpuDevice.initial calls = some d) (hok : GpuCallOk realloc d c)
    (hcall : gpuCall realloc d c = some (d₁, v)) (hv : v ≠ 0)
    (hmade₁ : Made (gpuStep realloc) (GpuCallOk realloc) d₁ more)
    (hno : ∀ c ∈ more, ¬ c.GivesUp a) (hrun₁ : run (gpuStep realloc) d₁ more = some d₂)
    (hok' : GpuCallOk realloc d₂ c') : gpuCall realloc d₂ c' = some (d₂, 0) := by
  obtain ⟨d', hd', howns⟩ := run_owns initial_owns hmade
  obtain rfl := Option.some.inj (hd'.symm.trans hrun)
  obtain ⟨r, hr, hmapped⟩ := (map_result hc hcall).resolve_left fun hnull => hv hnull.2
  obtain ⟨e, w, e₁, he, hfirst, hsecond, -⟩ := gpuCall_change howns hok
  obtain ⟨rfl, -⟩ := Prod.mk.inj (Option.some.inj (he.symm.trans hcall))
  have howns₁ := hsecond.owns (hfirst.owns howns)
  exact map_mapped hc' hok' (run_kept howns₁ hr hmapped hmade₁ hno hrun₁) hmapped

/-- The buffer after it was mapped. -/
def mappedDevice : GpuDevice := ((gpuCall inPlace bufferDevice (.mapBuffer 16)).map Prod.fst).getD .initial

/-- It is mapped, a texture is presented that is none, and it is mapped again. -/
theorem map_exclusive_buffer :
    gpuCall inPlace mappedDevice (.mapBuffer 16) = some (mappedDevice, 0) :=
  map_exclusive inPlace oneBuffer (.mapBuffer 16) [.present 0] (.mapBuffer 16) 16 32 rfl rfl
    bufferDevice mappedDevice mappedDevice oneBuffer_made bufferDevice_eq
    (.inr ⟨.buffer ⟨1, 8, 1, 32, false⟩, rfl, rfl⟩) rfl (by decide) ⟨.inl rfl, fun _ _ => trivial⟩
    (by simp [DeviceCall.GivesUp]) rfl (.inr ⟨.buffer ⟨1, 8, 1, 32, true⟩, rfl, rfl⟩)

end PrismaticOS.Gpu
