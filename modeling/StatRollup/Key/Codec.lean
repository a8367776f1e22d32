import StatRollup.Key.Basic
/-!
# Serialized keys

A key is written so that the cells of one statistic and mask lie together and sort by time.  With
identifiers of `w` bytes, all numbers highest octet first:

* the statistic in `w` octets, the mask in 2, the column length in 8;
* the row time in 8, offset so that earlier times have smaller octets;
* every tag and its value in `w` octets each;
* the column time in 8, offset likewise.

All before the column time is the row key, the column time is the column qualifier.
-/
namespace StatRollup

namespace Key

/-- A time as a natural number, in the order of time. -/
def ordinal (t : Timestamp) : Nat := (t.toInt - Interval.earliest).toNat

/-- The time with an ordinal. -/
def ofOrdinal (n : Nat) : Timestamp := Int64.ofInt (n + Interval.earliest)

/-- A time in eight octets. -/
def timeBytes (t : Timestamp) : Bytes := Bytes.bigEndian 8 (ordinal t)

/-- The octets of the tags. -/
def tagBytes : List TagValue → Bytes
  | [] => []
  | t :: ts => t.tag.toBytes ++ t.value.toBytes ++ tagBytes ts

/-- The key without its column. -/
def rowKey (k : Key) : Bytes :=
  k.statistic.toBytes ++ k.mask.toBytes ++ k.interval.toBytes ++ timeBytes k.rowTime ++
    tagBytes k.tags

/-- The column alone. -/
def columnQualifier (k : Key) : Bytes := timeBytes k.columnTime

/-- The whole key. -/
def toBytes (k : Key) : Bytes := k.rowKey ++ k.columnQualifier

/-- Octets that a key takes when all its identifiers have the width of the statistic. -/
def encodedLength (k : Key) : Nat :=
  k.statistic.width + 2 + 8 + 8 + k.tags.length * 2 * k.statistic.width + 8

/-! ## Reading -/

/-- Reads `count` tags of `width` octets for the tag and as many for its value. -/
def readTags (width : Nat) : Nat → Bytes → Except Fault (List TagValue)
  | 0, _ => .ok []
  | count + 1, bs => do
    let tag ← Uid.ofBytes (bs.take width)
    let value ← Uid.ofBytes ((bs.drop width).take width)
    let rest ← readTags width count (bs.drop (2 * width))
    return ⟨tag, value⟩ :: rest

/-- Reads a time. -/
def readTime (bs : Bytes) : Timestamp := ofOrdinal (Bytes.ofBigEndian bs)

/-- Octets of a key without tags. -/
def fixedLength (width : Nat) : Nat := width + 2 + 8 + 8 + 8

/-- Reads a key with identifiers of `width` octets.  The length is judged first, then the tags and
their order, then the statistic, the mask, the interval and the row. -/
def ofBytes (width : Nat) (bs : Bytes) : Except Fault Key :=
  if width = 0 ∨ bs.length < fixedLength width ∨
      (bs.length - fixedLength width) % (2 * width) ≠ 0 then
    .error (.keyLength bs.length width)
  else do
    let count := (bs.length - fixedLength width) / (2 * width)
    let tags ← readTags width count (bs.drop (width + 18))
    if sorted : IsSorted tags then
      let statistic ← Uid.ofBytes (bs.take width)
      let mask ← Mask.ofBytes ((bs.drop width).take 2)
      let interval ← Interval.ofBytes ((bs.drop (width + 2)).take 8)
      let row := readTime ((bs.drop (width + 10)).take 8)
      let column := readTime (bs.drop (bs.length - 8))
      if interval.rowStart column = row then
        return ⟨statistic, mask, interval, column, tags, sorted⟩
      else throw (.columnOutsideRow column.toInt row.toInt)
    else throw .tagsUnsorted

/-! ## Times -/

theorem ordinal_lt (t : Timestamp) : ordinal t < 256 ^ 8 := by
  have h1 := Int64.toInt_lt t
  have h2 := Int64.le_toInt t
  unfold ordinal Interval.earliest
  omega

@[simp] theorem ofOrdinal_ordinal (t : Timestamp) : ofOrdinal (ordinal t) = t := by
  have h2 := Int64.le_toInt t
  have : ((ordinal t : Nat) : Int) + Interval.earliest = t.toInt := by
    unfold ordinal Interval.earliest
    omega
  rw [ofOrdinal, this, Int64.ofInt_toInt]

@[simp] theorem readTime_timeBytes (t : Timestamp) : readTime (timeBytes t) = t := by
  rw [readTime, timeBytes, Bytes.ofBigEndian_bigEndian, Nat.mod_eq_of_lt (ordinal_lt t),
    ofOrdinal_ordinal]

end Key

end StatRollup
