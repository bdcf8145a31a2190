namespace BoardControl.Text

-- The bytes before the first zero, or all of them.
def untilNul (bytes : List UInt8) : List UInt8 := bytes.takeWhile (· ≠ 0)

-- The text that bytes encode in UTF-8, if they do.
def ofUtf8? (bytes : List UInt8) : Option String := String.fromUTF8? bytes.toByteArray

def toUtf8 (text : String) : List UInt8 := text.toUTF8.data.toList

-- The text that bytes encode, or a question mark.
def shown (bytes : List UInt8) : String := (ofUtf8? bytes).getD "?"

theorem toUtf8_of_ofUtf8? {bytes : List UInt8} {text : String} (h : ofUtf8? bytes = some text) :
    toUtf8 text = bytes := by
  unfold ofUtf8? String.fromUTF8? at h
  split at h
  · cases h
    change bytes.toByteArray.data.toList = bytes
    rw [List.data_toByteArray]
  · cases h

theorem toUtf8_inj {one other : String} (h : toUtf8 one = toUtf8 other) : one = other :=
  String.toByteArray_inj.mp (ByteArray.ext (Array.toList_inj.mp h))

end BoardControl.Text
