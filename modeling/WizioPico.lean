import WizioPico.Runs
import WizioPico.ByteMem
import WizioPico.BitTable
import WizioPico.Lfs
import WizioPico.LfsRom
import WizioPico.LfsRam
import WizioPico.Linked
import WizioPico.CTypes
import WizioPico.VfsList
import WizioPico.Vfs
import WizioPico.VfsMount
import WizioPico.VfsTable
import WizioPico.VfsUnmount
import WizioPico.FsDrivers
import WizioPico.LfsMount
import WizioPico.FatSeek
import WizioPico.FatWindow
import WizioPico.FatEntry
import WizioPico.Chains
import WizioPico.FatChain
import WizioPico.FatVolume
import WizioPico.FatSync
import WizioPico.FatFree
import WizioPico.FatData
import WizioPico.FatRead
import WizioPico.FatWrite
import WizioPico.FatFollow
import WizioPico.Posix
import WizioPico.FatFiles
import WizioPico.FatFile
import WizioPico.LfsFile
import WizioPico.FileOpen
import WizioPico.Syscalls
import WizioPico.Tiling
import WizioPico.FreeList
import WizioPico.Heap4
import WizioPico.HeapTiling
import WizioPico.HeapSafety
import WizioPico.Realloc
import WizioPico.Calloc
import WizioPico.GpioIrq
import WizioPico.Calendar
import WizioPico.RtcTime
import WizioPico.Decimal
import WizioPico.Eeprom
import WizioPico.EepromCommit
import WizioPico.Ring
import WizioPico.Cbuf
import WizioPico.PrefixMatch
import WizioPico.Numeral
import WizioPico.Print
import WizioPico.Stream
import WizioPico.UsbWrite
import WizioPico.Tone
import WizioPico.UsbSerial
import WizioPico.Polling
import WizioPico.Fuel
import WizioPico.PulseIn
import WizioPico.Spi
import WizioPico.SpiTransfer
import WizioPico.FactorSearch
import WizioPico.Pwm
import WizioPico.PwmDuty
import WizioPico.SdCard
import WizioPico.SdInit
import WizioPico.SdTransfer
import WizioPico.SdCapacity
import WizioPico.IPAddress
import WizioPico.Interrupt
import WizioPico.RingBuffer
import WizioPico.Transducer
import WizioPico.RingBuffers
import WizioPico.SerialUart
import WizioPico.Wire
import WizioPico.WireWrite
import WizioPico.SerialUsb
import WizioPico.CBuffer
import WizioPico.Occurrences
import WizioPico.Substitution
import WizioPico.WString
import WizioPico.StreamFind
import WizioPico.StringAlloc
import WizioPico.StringText
import WizioPico.StringEdit
import WizioPico.StringNumber
import WizioPico.StringReplace
import WizioPico.StringSelf
import WizioPico.StringSearch
import WizioPico.StringSubst
import WizioPico.StringRuns
