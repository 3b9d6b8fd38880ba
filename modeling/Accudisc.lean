import Accudisc.Abi
import Accudisc.AbiImport
import Accudisc.Cdda.IndexMap
import Accudisc.Cdda.Layout
import Accudisc.Cdda.PregapScan
import Accudisc.Cdda.Proof.Gf6
import Accudisc.Cdda.Proof.IndexMap
import Accudisc.Cdda.Proof.Layout
import Accudisc.Cdda.Proof.PregapScan
import Accudisc.Cdda.Proof.Rw
import Accudisc.Cdda.Proof.RwCode
import Accudisc.Cdda.Proof.Scan
import Accudisc.Cdda.Rw
import Accudisc.Cdda.Scan
import Accudisc.Cdda.SubQ
import Accudisc.Drive.C2Lag
import Accudisc.Drive.C2LagProbe
import Accudisc.Drive.Census
import Accudisc.Drive.Driver
import Accudisc.Drive.Identify
import Accudisc.Drive.Offsets
import Accudisc.Drive.Proof.C2Lag
import Accudisc.Drive.Proof.C2LagProbe
import Accudisc.Drive.Proof.Census
import Accudisc.Drive.Proof.Driver
import Accudisc.Drive.Proof.Identify
import Accudisc.Drive.Proof.Inquiry
import Accudisc.Drive.Proof.OffsetSize
import Accudisc.Drive.Proof.Offsets
import Accudisc.Drive.Proof.SetSpeed
import Accudisc.Drive.Proof.SpeedProbe
import Accudisc.Drive.Proof.Speeds
import Accudisc.Drive.SetSpeed
import Accudisc.Drive.SpeedProbe
import Accudisc.Drive.Speeds
import Accudisc.Drivers.Plextor
import Accudisc.Drivers.PlextorDriver
import Accudisc.Drivers.Proof.Plextor
import Accudisc.Drivers.Proof.PlextorDriver
import Accudisc.Err
import Accudisc.Lib.BerlekampMassey
import Accudisc.Lib.BigEndian
import Accudisc.Lib.BinField
import Accudisc.Lib.BinPoly
import Accudisc.Lib.Buf
import Accudisc.Lib.Crc
import Accudisc.Lib.ErrorLocator
import Accudisc.Lib.Exit
import Accudisc.Lib.History
import Accudisc.Lib.LeastTwo
import Accudisc.Lib.Loop
import Accudisc.Lib.Lts
import Accudisc.Lib.RunningPick
import Accudisc.Lib.Tally
import Accudisc.Mem
import Accudisc.Meta.CdText
import Accudisc.Meta.CdTextBlob
import Accudisc.Meta.CdTextEncode
import Accudisc.Meta.Proof.CdText
import Accudisc.Meta.Proof.CdTextBlob
import Accudisc.Meta.Proof.CdTextDamage
import Accudisc.Meta.Proof.CdTextEncode
import Accudisc.Meta.Proof.CdTextRoundTrip
import Accudisc.Mmc.Cdb
import Accudisc.Mmc.Device
import Accudisc.Mmc.Proof.Cdb
import Accudisc.Mmc.Proof.Device
import Accudisc.Mmc.Proof.ReadCd
import Accudisc.Mmc.Proof.ReadCdOrder
import Accudisc.Mmc.Proof.Ready
import Accudisc.Mmc.ReadCd
import Accudisc.Mmc.Ready
import Accudisc.Read.AccuBuf
import Accudisc.Read.Cdda
import Accudisc.Read.Chunk
import Accudisc.Read.Engine
import Accudisc.Read.Proof.AccuBuf
import Accudisc.Read.Proof.AccuBufSync
import Accudisc.Read.Proof.Alignment
import Accudisc.Read.Proof.Cdda
import Accudisc.Read.Proof.CddaLoop
import Accudisc.Read.Proof.CddaTrust
import Accudisc.Read.Proof.Chunk
import Accudisc.Read.Proof.ChunkStep
import Accudisc.Read.Proof.Examined
import Accudisc.Read.Proof.Publish
import Accudisc.Read.Proof.ReadLog
import Accudisc.Read.Proof.ReadSpan
import Accudisc.Read.Proof.Sector
import Accudisc.Read.Proof.Settle
import Accudisc.Read.Proof.Shift
import Accudisc.Read.Proof.Stages
import Accudisc.Read.Proof.Widen
import Accudisc.Read.Sector
import Accudisc.Repair.Ctdb
import Accudisc.Repair.Gf16
import Accudisc.Repair.Gf16Field
import Accudisc.Repair.Proof.Ctdb
import Accudisc.Repair.Proof.CtdbApply
import Accudisc.Repair.Proof.CtdbColumn
import Accudisc.Repair.Proof.CtdbFrame
import Accudisc.Repair.Proof.CtdbPass2
import Accudisc.Repair.Proof.CtdbSafe
import Accudisc.Repair.Proof.Gf16Tables
import Accudisc.Repair.Proof.Rs16Bm
import Accudisc.Repair.Proof.Rs16Chien
import Accudisc.Repair.Proof.Rs16Decode
import Accudisc.Repair.Proof.Rs16Errata
import Accudisc.Repair.Proof.Rs16Poly
import Accudisc.Repair.Proof.Rs16Word
import Accudisc.Repair.Proof.Sweep
import Accudisc.Repair.Proof.SweepAvx2
import Accudisc.Repair.Proof.SweepCrc
import Accudisc.Repair.Rs16
import Accudisc.Repair.Sweep
import Accudisc.Toc.Plan
import Accudisc.Toc.Proof.AudioRange
import Accudisc.Toc.Proof.Extents
import Accudisc.Toc.Proof.Guard
import Accudisc.Toc.Proof.Order
import Accudisc.Toc.Proof.Plan
import Accudisc.Toc.Proof.Produced
import Accudisc.Toc.Proof.Range
import Accudisc.Toc.Proof.Swallow
import Accudisc.Toc.Proof.Toc
import Accudisc.Toc.Range
import Accudisc.Toc.Session
import Accudisc.Toc.Toc
import Accudisc.Write.Burn
import Accudisc.Write.CueSheet
import Accudisc.Write.Fifo
import Accudisc.Write.Health
import Accudisc.Write.ParamsTrip
import Accudisc.Write.Proof.Burn
import Accudisc.Write.Proof.BurnBlocks
import Accudisc.Write.Proof.BurnChecked
import Accudisc.Write.Proof.BurnFeed
import Accudisc.Write.Proof.BurnRelease
import Accudisc.Write.Proof.BurnTiles
import Accudisc.Write.Proof.BurnWire
import Accudisc.Write.Proof.CueSheet
import Accudisc.Write.Proof.Fifo
import Accudisc.Write.Proof.Health
import Accudisc.Write.Proof.ParamsTrip
import Accudisc.Write.Proof.TocExact
import Accudisc.Write.Proof.TocLines
import Accudisc.Write.Proof.VerifyAlign
import Accudisc.Write.Proof.VerifyCompare
import Accudisc.Write.Proof.VerifyRead
import Accudisc.Write.Proof.VerifyTier
import Accudisc.Write.Proof.WriteApi
import Accudisc.Write.Proof.WriteOffset
import Accudisc.Write.Proof.WriteParams
import Accudisc.Write.TocParse
import Accudisc.Write.Verify
import Accudisc.Write.WriteApi
import Accudisc.Write.WriteOffset
