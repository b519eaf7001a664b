import CameraBoard.Esp
import Mathlib.Data.List.Nodup

/-! Mounting the SD card. The module-level card pointer is the only record the
code keeps of what is mounted; the log is kept by the model. -/
namespace CameraBoard.Sd

abbrev CardId := Nat

/-- Successful mounts and calls of the unmount function, the latter with the
volume that was mounted when they were made. -/
inductive MountEvent where
  | mounted (card : CardId)
  | unmounted (card : CardId) (volume : Option CardId)
  deriving DecidableEq, Repr

structure SdState where
  card : Option CardId
  host : Bool
  volume : Option CardId
  fresh : CardId
  log : List MountEvent
  deriving DecidableEq, Repr

def SdState.reset : SdState := ⟨none, false, none, 0, []⟩

/-- Fails without effect while the host is initialised, and otherwise as the
given outcome says. The new card reaches the caller only on success. -/
def espVfsFatSdmmcMount (s : SdState) (outcome : EspErr) : EspErr × SdState :=
  if s.host then (espErrInvalidState, s)
  else if outcome ≠ espOk then (outcome, s)
  else
    (espOk,
      { card := some s.fresh
        host := true
        volume := some s.fresh
        fresh := s.fresh + 1
        log := s.log ++ [.mounted s.fresh] })

def espVfsFatSdcardUnmount (s : SdState) (card : CardId) : EspErr × SdState :=
  let s := { s with log := s.log ++ [.unmounted card s.volume] }
  if s.volume = some card then (espOk, { s with host := false, volume := none })
  else (espErrInvalidArg, s)

def sdInit (s : SdState) (outcome : EspErr) : SdState := (espVfsFatSdmmcMount s outcome).2

def sdUnmount (s : SdState) : SdState :=
  match s.card with
  | some card => { (espVfsFatSdcardUnmount s card).2 with card := none }
  | none => s

def mounts (log : List MountEvent) : List CardId :=
  log.filterMap fun
    | .mounted card => some card
    | .unmounted _ _ => none

def unmounts (log : List MountEvent) : List CardId :=
  log.filterMap fun
    | .mounted _ => none
    | .unmounted card _ => some card

@[simp] theorem mounts_snoc_mounted (log : List MountEvent) (card : CardId) :
    mounts (log ++ [.mounted card]) = mounts log ++ [card] := by
  simp [mounts]

@[simp] theorem mounts_snoc_unmounted (log : List MountEvent) (card : CardId)
    (volume : Option CardId) : mounts (log ++ [.unmounted card volume]) = mounts log := by
  simp [mounts]

@[simp] theorem unmounts_snoc_mounted (log : List MountEvent) (card : CardId) :
    unmounts (log ++ [.mounted card]) = unmounts log := by
  simp [unmounts]

@[simp] theorem unmounts_snoc_unmounted (log : List MountEvent) (card : CardId)
    (volume : Option CardId) :
    unmounts (log ++ [.unmounted card volume]) = unmounts log ++ [card] := by
  simp [unmounts]

/-- The pointer names the mounted volume and no other, every mount has a card
of its own that is unmounted at most once, and never with a stale card. -/
structure Owned (s : SdState) : Prop where
  pointer : s.card = s.volume
  distinct : (mounts s.log).Nodup
  once : (unmounts s.log).Nodup
  current : ∀ card volume, .unmounted card volume ∈ s.log → volume = some card

structure Inv (s : SdState) : Prop extends Owned s where
  host : s.host = s.volume.isSome
  older : ∀ card ∈ mounts s.log, card < s.fresh
  closed : ∀ card ∈ unmounts s.log, card ∈ mounts s.log
  still : ∀ card, s.volume = some card → card ∈ mounts s.log ∧ card ∉ unmounts s.log

theorem inv_reset : Inv .reset := by
  constructor <;> simp [SdState.reset, mounts, unmounts]
  constructor <;> simp [mounts, unmounts]

theorem sdInit_mounted {s : SdState} {card : CardId} (h : Inv s) (mounted : s.volume = some card)
    (outcome : EspErr) : sdInit s outcome = s := by
  simp [sdInit, espVfsFatSdmmcMount, h.host, mounted]

theorem sdInit_failed {s : SdState} {outcome : EspErr} (bad : outcome ≠ espOk) :
    sdInit s outcome = s := by
  cases host : s.host <;> simp [sdInit, espVfsFatSdmmcMount, host, bad]

theorem sdInit_mounts {s : SdState} (h : Inv s) (free : s.volume = none) :
    sdInit s espOk = ⟨some s.fresh, true, some s.fresh, s.fresh + 1, s.log ++ [.mounted s.fresh]⟩ := by
  simp [sdInit, espVfsFatSdmmcMount, h.host, free]

theorem sdUnmount_none {s : SdState} (h : Inv s) (free : s.volume = none) : sdUnmount s = s := by
  simp [sdUnmount, h.pointer, free]

theorem sdUnmount_mounted {s : SdState} {card : CardId} (h : Inv s)
    (mounted : s.volume = some card) :
    sdUnmount s = ⟨none, false, none, s.fresh, s.log ++ [.unmounted card (some card)]⟩ := by
  simp [sdUnmount, espVfsFatSdcardUnmount, h.pointer, mounted]

theorem Inv.sdInit {s : SdState} (h : Inv s) (outcome : EspErr) : Inv (sdInit s outcome) := by
  cases mounted : s.volume with
  | some card => rwa [sdInit_mounted h mounted]
  | none =>
    by_cases ok : outcome = espOk
    · have unused : s.fresh ∉ mounts s.log := fun old => Nat.lt_irrefl _ (h.older _ old)
      rw [ok, sdInit_mounts h mounted]
      constructor
      · constructor
        · rfl
        · simpa [List.nodup_append, h.distinct] using
            fun card old => Nat.ne_of_lt (h.older card old)
        · simpa using h.once
        · simpa using h.current
      · rfl
      · intro card hc
        obtain hc | rfl : card ∈ mounts s.log ∨ card = s.fresh := by simpa using hc
        · exact Nat.lt_succ_of_lt (h.older card hc)
        · exact Nat.lt_succ_self _
      · intro card hc
        simpa using Or.inl (h.closed card (by simpa using hc))
      · rintro card ⟨⟩
        exact ⟨by simp, by simpa using fun hc => unused (h.closed _ hc)⟩
    · rwa [sdInit_failed ok]

theorem Inv.sdUnmount {s : SdState} (h : Inv s) :
    Inv (sdUnmount s) ∧ (Sd.sdUnmount s).volume = none := by
  cases mounted : s.volume with
  | none =>
    rw [sdUnmount_none h mounted]
    exact ⟨h, mounted⟩
  | some card =>
    obtain ⟨known, unspent⟩ := h.still card mounted
    rw [sdUnmount_mounted h mounted]
    refine ⟨⟨⟨rfl, ?_, ?_, ?_⟩, rfl, ?_, ?_, by simp⟩, rfl⟩
    · simpa using h.distinct
    · simpa [List.nodup_append, h.once] using
        fun other hc => ne_of_mem_of_not_mem hc unspent
    · intro other volume hc
      obtain hc | ⟨rfl, rfl⟩ : .unmounted other volume ∈ s.log ∨ other = card ∧ volume = some card :=
        by simpa using hc
      · exact h.current other volume hc
      · rfl
    · simpa using h.older
    · intro other hc
      obtain hc | rfl : other ∈ unmounts s.log ∨ other = card := by simpa using hc
      · simpa using h.closed other hc
      · simpa using known

end CameraBoard.Sd
