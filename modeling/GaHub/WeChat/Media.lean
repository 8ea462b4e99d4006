import Mathlib.Data.List.Basic

namespace GaHub.WeChat.Media

abbrev Name := List Char
abbrev Path := List Name

inductive MediaKey where
  | image_item
  | video_item
  | file_item
  | voice_item
  deriving DecidableEq

def MEDIA_KEYS : List (MediaKey × Name) :=
  [(.image_item, ".jpg".toList), (.video_item, ".mp4".toList), (.file_item, []), (.voice_item, ".silk".toList)]

-- A media entry of an item: whether it has an `encrypt_query_param` and a key, and the name the sender gave it.
structure Sub where
  encryptQueryParam : Bool
  aesKey : Bool
  fileName : Name := []

-- What `item.get(key)` finds. Something that is not an object raises when it is looked into.
inductive Field where
  | missing
  | malformed
  | sub (s : Sub)

abbrev Item := MediaKey → Field

-- What becomes of the download of an item: whether the media is fetched and decrypted, the random part of a generated
-- name, and whether the file may be opened.
structure Chance where
  fetched : Bool
  hex : Name
  permitted : Bool

structure Disk where
  isDir : Path → Bool
  isFile : Path → Bool

def Disk.write (disk : Disk) (p : Path) : Disk := { disk with isFile := fun q => q == p || disk.isFile q }

-- The first entry that can be downloaded, with its extension; `none` where looking for it raises.
def chosen (item : Item) : List (MediaKey × Name) → Option (Option (Sub × Name))
  | [] => some none
  | (key, ext) :: keys =>
    match item key with
    | .missing => chosen item keys
    | .malformed => none
    | .sub s => if s.encryptQueryParam && s.aesKey then some (some (s, ext)) else chosen item keys

def saveName (s : Sub) (ext : Name) (chance : Chance) : Name :=
  if s.fileName = [] then chance.hex ++ (if ext = [] then ".bin".toList else ext) else s.fileName

-- One component of a path, from the directory it is looked up in.
def walk (p : Path) (component : Name) : Path :=
  if component = [] ∨ component = ['.'] then p
  else if component = ['.', '.'] then p.dropLast
  else p ++ [component]

variable (isSep : Char → Bool) (dest : Path)

-- `os.path.join(dest_dir, fname)`, as the file system resolves it.
def target (name : Name) : Path :=
  (name.splitOnP isSep).foldl walk (if name.head?.any isSep then [] else dest)

def opens (isDir : Path → Bool) (chance : Chance) (name : Name) : Bool :=
  let p := target isSep dest name
  chance.fetched && chance.permitted && !name.getLast?.any isSep && isDir p.dropLast && !isDir p

structure Written where
  path : Path
  replaced : Bool

-- The files it writes, up to where it raises.
def downloadMedia (disk : Disk) : List (Item × Chance) → List Written
  | [] => []
  | (item, chance) :: items =>
    match chosen item MEDIA_KEYS with
    | none => []
    | some none => downloadMedia disk items
    | some (some (s, ext)) =>
      let name := saveName s ext chance
      let p := target isSep dest name
      if opens isSep dest disk.isDir chance name then
        { path := p, replaced := disk.isFile p } :: downloadMedia (disk.write p) items
      else downloadMedia disk items

structure Message where
  fromUserId : String
  text : String
  items : List (Item × Chance)

structure Service where
  allowlist : List String
  publicAccess : List String → Bool

def Service.isAllowed (service : Service) (uid : String) : Bool :=
  service.publicAccess service.allowlist || decide (uid ∈ service.allowlist)

inductive Verdict where
  | raised
  | ignored
  | blocked
  | admitted
  deriving DecidableEq

def onMessage (service : Service) (disk : Disk) (msg : Message) : List Written × Verdict :=
  let written := downloadMedia isSep dest disk msg.items
  (written,
    if msg.items.any fun i => (chosen i.1 MEDIA_KEYS).isNone then .raised
    else if msg.text = "" ∧ written.length = 0 then .ignored
    else if service.isAllowed msg.fromUserId then .admitted
    else .blocked)

def Confined (service : Service) (msg : Message) (written : List Written) : Prop :=
  (∀ w ∈ written, (∃ n, w.path = dest ++ [n]) ∧ w.replaced = false) ∧
    (service.isAllowed msg.fromUserId = false → written = [])

-- Where the items that are fetched and may be opened lead to.
def saved (isDir : Path → Bool) : List (Item × Chance) → List Path
  | [] => []
  | (item, chance) :: items =>
    match chosen item MEDIA_KEYS with
    | none => []
    | some none => saved isDir items
    | some (some (s, ext)) =>
      let name := saveName s ext chance
      if opens isSep dest isDir chance name then target isSep dest name :: saved isDir items else saved isDir items

theorem downloadMedia_paths (disk : Disk) (items : List (Item × Chance)) :
    (downloadMedia isSep dest disk items).map (·.path) = saved isSep dest disk.isDir items := by
  induction items generalizing disk with
  | nil => rfl
  | cons head items ih =>
      obtain ⟨item, chance⟩ := head
      unfold downloadMedia saved
      cases chosen item MEDIA_KEYS with
      | none => rfl
      | some sub =>
          cases sub with
          | none => exact ih disk
          | some sub =>
              obtain ⟨s, ext⟩ := sub
              dsimp only
              split
              · rw [List.map_cons, ih]
                rfl
              · exact ih disk

theorem downloadMedia_fresh (disk : Disk) (items : List (Item × Chance)) :
    (∀ w ∈ downloadMedia isSep dest disk items, w.replaced = false) ↔
      (saved isSep dest disk.isDir items).Nodup ∧ ∀ p ∈ saved isSep dest disk.isDir items, disk.isFile p = false := by
  induction items generalizing disk with
  | nil => simp [downloadMedia, saved]
  | cons head items ih =>
      obtain ⟨item, chance⟩ := head
      unfold downloadMedia saved
      cases chosen item MEDIA_KEYS with
      | none => simp
      | some sub =>
          cases sub with
          | none => exact ih disk
          | some sub =>
              obtain ⟨s, ext⟩ := sub
              dsimp only
              split
              · rw [List.forall_mem_cons, ih, List.nodup_cons, List.forall_mem_cons]
                simp only [Disk.write, Bool.or_eq_false_iff, beq_eq_false_iff_ne]
                grind -ring -linarith
              · exact ih disk

-- A file from a sender who is not on the allowlist, named `../mykey.py`.
def climbing : Item × Chance :=
  (fun key => if key = .file_item then
      .sub { encryptQueryParam := true, aesKey := true, fileName := "../mykey.py".toList } else .missing,
    { fetched := true, hex := [], permitted := true })

def tempTree : Disk where
  isDir p := p == [] || p == ["temp".toList] || p == ["temp".toList, "wechat_media".toList]
  isFile p := p == ["temp".toList, "mykey.py".toList]

end GaHub.WeChat.Media
