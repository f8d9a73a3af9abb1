import OmryaKv.Write.DiskLayout

set_option autoImplicit false

namespace OmryaKv.Write

open Journal Lib

variable {deps : Dependencies}

-- A database that is not open: the log holds exactly the whole frames of its journals.
structure Down (deps : Dependencies) (disk : Disk FileName) (log : DurableLog) (front : List (FileName × DiskFile)) (path : FileName)
    (f : DiskFile) (frames : List (Frame deps)) : Prop where
  laid : Laid deps disk front path f log frames
  created : disk.created = []
  active : log.active = (frames.take (wholeFrames frames f.data.length)).map Frame.batch
  found : log.flushed = wholeFrames frames f.data.length

theorem whole_frames_all (frames : List (Frame deps)) : wholeFrames frames (framesBytes frames).length = frames.length := by
  refine Nat.le_antisymm (whole_frames_le frames _) (le_whole_frames frames _ _ (Nat.le_refl _) ?_)
  rw [List.take_length]

variable {disk : Disk FileName} {log : DurableLog} {front : List (FileName × DiskFile)} {path : FileName} {f : DiskFile}
  {frames : List (Frame deps)}

section

variable (down : Down deps disk log front path f frames)
include down

-- An open database: what the file of the active journal lacks of the frames is in the
-- buffer of the writer.
structure Up (deps : Dependencies) (disk : Disk FileName) (w : BufferedWriter) (log : DurableLog)
    (front : List (FileName × DiskFile)) (f : DiskFile) (frames : List (Frame deps)) : Prop where
  laid : Laid deps disk front w.path f log frames
  created : disk.created = []
  active : log.active = frames.map Frame.batch
  buffered : f.data ++ w.buf = framesBytes frames
  clean : w.isBufferDirty = false → w.buf = []

end

end OmryaKv.Write
